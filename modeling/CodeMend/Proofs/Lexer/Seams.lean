import CodeMend.Proofs.Lexer.Spelling

/-!
# Putting tokens next to each other

Tokens that read back may be followed by other tokens than before, as long as the first stop behind
them is the same one (`Lexes.behind`).  So

* what ends with a semicolon or a closing brace can be followed by anything (`Lexes.closed`);
* behind trivia, one token that is not trivia can stand for another (`Lexes.behind_trivia`);
* white space and line breaks are cut off wherever they stand, unless the next token would be drawn
  into them (`Lexes.whitespace`, `Lexes.newline`).
-/

namespace CodeMend.Lexer

open Text Tree

variable {lineStart : Bool} {k : Kind} {text : String} {front rest rest' xs : Stored}

/-! ## Texts that differ behind a stop -/

/-- Two texts are the same up to a stop, if they are not the same. -/
def Near (cs ds : List Char) : Prop :=
  cs = ds ∨ ∃ x b v w, isStop b = true ∧ cs = x ++ b :: v ∧ ds = x ++ b :: w

/-- Texts behind the same line break are the same up to a stop. -/
theorem near_behind {text : String} (h : IsBreak text) (cs ds : List Char) :
    Near (text.toList ++ cs) (text.toList ++ ds) := by
  obtain ⟨x, b, htext, hb⟩ := h.ends
  exact .inr ⟨x, b, cs, ds, isStop_of_isLineBreak hb, by simp [htext], by simp [htext]⟩

/-- Texts behind the same stop are the same up to it. -/
theorem near_of_stop {b : Char} (hb : isStop b = true) {cs ds : List Char} {x : List Char}
    (hx : x.head? = some b) : Near (x ++ cs) (x ++ ds) := by
  obtain ⟨x, rfl⟩ := List.head?_eq_some_iff.1 hx
  exact .inr ⟨[], b, x ++ cs, x ++ ds, hb, rfl, rfl⟩

/-- The same characters in front change nothing. -/
theorem Near.append_left {cs ds : List Char} (h : Near cs ds) (x : List Char) :
    Near (x ++ cs) (x ++ ds) := by
  rcases h with rfl | ⟨y, b, v, w, hb, rfl, rfl⟩
  · exact .inl rfl
  · exact .inr ⟨x ++ y, b, v, w, hb, by simp, by simp⟩

/-- A token is cut off the front of a text that is nearly the same, too. -/
theorem lexeme_near {c : Char} {cs rest rest' : List Char}
    (hchars : text.toList ++ rest = c :: cs)
    (hfront : lexeme lineStart c cs = ⟨k, text.toList, none⟩) (hnear : Near rest rest') :
    ∃ cs', text.toList ++ rest' = c :: cs' ∧ lexeme lineStart c cs' = ⟨k, text.toList, none⟩ := by
  have hne : text.toList ≠ [] := by
    have hne := lexeme_chars_ne_nil lineStart c cs
    rwa [hfront] at hne
  obtain ⟨d, x, htext⟩ := List.exists_cons_of_ne_nil hne
  rw [htext, List.cons_append] at hchars
  obtain ⟨rfl, rfl⟩ := List.cons.inj hchars
  rw [htext] at hfront ⊢
  rcases hnear with rfl | ⟨y, b, v, w, hb, rfl, rfl⟩
  · exact ⟨_, rfl, hfront⟩
  · refine ⟨x ++ (y ++ b :: w), rfl, ?_⟩
    rw [← List.append_assoc] at hfront ⊢
    rw [lexeme_local hb lineStart d (v := v), hfront]
    rw [hfront]
    simp

/-- **Tokens read back before other tokens** if these start with the same characters up to a stop. -/
theorem Lexes.behind (h : Lexes lineStart (front ++ rest))
    (hnear : Near (charsOf rest) (charsOf rest'))
    (hrest : Lexes (lineStartAfter lineStart front) rest') : Lexes lineStart (front ++ rest') := by
  induction front generalizing lineStart with
  | nil => exact hrest
  | cons x front ih =>
      cases h with
      | cons chars hfront h =>
          have hnear : Near (charsOf (front ++ rest)) (charsOf (front ++ rest')) := by
            rw [charsOf_append, charsOf_append]
            exact hnear.append_left _
          obtain ⟨cs, chars, hfront⟩ := lexeme_near chars hfront hnear
          exact .cons chars hfront (ih h hrest)

/-! ## Tokens that are not trivia -/

/-- Does the text of the tokens start with a character that is not blank? -/
def Dark (xs : Stored) : Prop := ∃ c cs, charsOf xs = c :: cs ∧ isBlank c = false

/-- The first character is not blank. -/
theorem Dark.head (h : Dark xs) : ∀ c ∈ (charsOf xs).head?, isBlank c = false := by
  obtain ⟨d, ds, hchars, hd⟩ := h
  intro c hc
  rw [hchars] at hc
  obtain rfl := Option.some.inj hc
  exact hd

/-- Behind a significant token no directive can start. -/
theorem nextLineStart_of_significant (hk : k.isTrivia = false) (lineStart : Bool) :
    nextLineStart lineStart k = false := by
  have hnewline : k ≠ .newline := by
    rintro rfl
    cases hk
  have hspace : k ≠ .whitespace := by
    rintro rfl
    cases hk
  simp [nextLineStart, hnewline, hspace]

/-- Only a directive reads differently at the start of a line. -/
theorem Lexes.anywhere (h : Lexes lineStart ((k, text) :: xs)) (hk : k.isTrivia = false)
    (lineStart' : Bool) : Lexes lineStart' ((k, text) :: xs) := by
  cases h with
  | @cons _ _ _ c cs _ chars front rest =>
      have hc : c ≠ '#' := by
        rintro rfl
        cases lineStart with
        | true => exact absurd front (ne_of_significant hk (directiveKind_isTrivia _))
        | false => cases congrArg Lexeme.fault front
      have hsame (lineStart : Bool) : lexeme lineStart c cs = lexeme false c cs := by
        simp [lexeme, hc]
      refine .cons chars (by rw [hsame, ← hsame lineStart, front]) ?_
      rw [nextLineStart_of_significant hk] at rest ⊢
      exact rest

/-- A significant token starts with a character that is not blank. -/
theorem Lexes.dark (h : Lexes lineStart ((k, text) :: xs)) (hk : k.isTrivia = false) :
    Dark ((k, text) :: xs) := by
  cases h with
  | cons chars front rest => exact ⟨_, _, chars, lexeme_head_not_blank hk front⟩

/-! ## Tokens that end a statement -/

/-- A semicolon or a closing brace is one character, and it is cut off whatever follows. -/
theorem lexeme_closing {c : Char} {cs : List Char} (hk : k = .semicolon ∨ k = .rBrace)
    (h : (lexeme lineStart c cs).kind = k) : ∃ b, isStop b = true ∧
      (lexeme lineStart c cs).chars = [b] ∧
      ∀ lineStart' cs', lexeme lineStart' b cs' = ⟨k, [b], none⟩ := by
  have hpunctuation : lexeme lineStart c cs = scanPunctuation c cs := by
    refine lexeme_eq_scanPunctuation (fun _ => ?_) ?_ ?_ ?_ h <;>
      rcases hk with rfl | rfl <;> decide
  have hchars : ∀ p ∈ punctuation, (p.2 = .semicolon → p.1 = [';']) ∧
      (p.2 = .rBrace → p.1 = ['\x7d']) := by decide
  rw [hpunctuation] at h ⊢
  rcases scanPunctuation_cases c cs with ⟨⟨chars, kind⟩, hp, heq⟩ | herror
  · obtain ⟨hsemicolon, hbrace⟩ := hchars _ hp
    rw [heq] at h ⊢
    obtain rfl : kind = k := h
    rcases hk with rfl | rfl
    · exact ⟨';', rfl, hsemicolon rfl, fun _ _ => rfl⟩
    · exact ⟨'\x7d', rfl, hbrace rfl, fun _ _ => rfl⟩
  · rcases hk with rfl | rfl <;> cases h.symm.trans herror

/-- **What ends with a semicolon or a closing brace can be followed by anything.** -/
theorem Lexes.closed (h : Lexes lineStart (xs ++ rest)) (hxs : EndsClosed xs)
    (hrest : Lexes false rest') : Lexes lineStart (xs ++ rest') := by
  obtain ⟨front, k, text, rfl, hk⟩ := hxs
  rw [List.append_assoc] at h ⊢
  have hback := h.of_append
  cases hback with
  | cons chars hfront _ =>
      obtain ⟨b, hb, hchars, hclosing⟩ := lexeme_closing hk (congrArg Lexeme.kind hfront)
      have htext : text.toList = [b] := by rw [← hchars, hfront]
      refine h.behind ?_ (@Lexes.cons _ _ _ b (charsOf rest') _ ?_ ?_ ?_)
      · rw [List.singleton_append, List.singleton_append, charsOf_cons, charsOf_cons, htext]
        exact near_of_stop hb rfl
      · rw [htext]
        rfl
      · rw [htext]
        exact hclosing _ _
      · rw [nextLineStart_of_significant (by rcases hk with rfl | rfl <;> rfl)]
        exact hrest

/-! ## White space and line breaks -/

/-- What is cut as white space is white space, and all of it up to the end of the line. -/
def WholeSpace (c : Char) (cs : List Char) (l : Lexeme) : Prop :=
  l.kind = .whitespace → (isBlank c && !isLineBreak c) = true ∧
    l.chars = (c :: cs).takeWhile (fun d => isBlank d && !isLineBreak d)

/-- White space is cut as such by one scanner only, and that takes all of it: one case for each
thing a token can be. -/
theorem lexeme_wholeSpace (lineStart : Bool) (c : Char) (cs : List Char) :
    WholeSpace c cs (lexeme lineStart c cs) := by
  apply lexeme_cases (motive := WholeSpace c cs)
  case newline =>
    intro _ h
    rw [scanNewline_kind] at h
    cases h
  case blanks =>
    intro hbreak hblank _
    exact ⟨by rw [hblank, hbreak]; rfl, rfl⟩
  case directive =>
    exact fun _ _ h => absurd h (ne_of_class (directiveKind_isDirective _) rfl)
  case lineComment =>
    intro _ _ h
    rcases scanLineComment_kind (c :: cs) with hk | hk <;> cases hk.symm.trans h
  case blockComment => exact fun _ _ h => absurd h nofun
  case number =>
    intro _ h
    rcases scanNumber_kind (c :: cs) with hk | hk <;> cases hk.symm.trans h
  case string => exact fun _ _ _ h => absurd h nofun
  case char => exact fun _ h => absurd h nofun
  case word =>
    intro _ h
    rcases scanWord_kind (c :: cs) with hk | hk
    · cases hk.symm.trans h
    · exact absurd h (ne_of_class hk rfl)
  case verbatimWord => exact fun _ _ h => absurd h nofun
  case punctuation =>
    intro _ _ _ h
    have hall : ∀ p ∈ punctuation, p.2 ≠ .whitespace := by decide
    rcases scanPunctuation_cases c cs with ⟨p, hp, heq⟩ | herror
    · exact absurd (by rw [← h, heq]) (hall p hp)
    · cases herror.symm.trans h

/-- White space is read up to a character that is none. -/
theorem Lexes.whitespace (hne : text.toList ≠ [])
    (hblank : ∀ c ∈ text.toList, (isBlank c && !isLineBreak c) = true)
    (hhead : Dark xs)
    (h : Lexes (nextLineStart lineStart .whitespace) xs) :
    Lexes lineStart ((.whitespace, text) :: xs) := by
  obtain ⟨c, cs, htext⟩ := List.exists_cons_of_ne_nil hne
  obtain ⟨hc, hbreak⟩ : isBlank c = true ∧ isLineBreak c = false := by
    simpa using hblank c (by simp [htext])
  have htake : (text.toList ++ charsOf xs).takeWhile (fun d => isBlank d && !isLineBreak d) =
      text.toList := by
    rw [List.takeWhile_append_of_pos hblank]
    obtain ⟨d, ds, hchars, hd⟩ := hhead
    simp [hchars, hd]
  rw [htext, List.cons_append] at htake
  refine @Lexes.cons _ _ _ c (cs ++ charsOf xs) _ (by rw [htext]; rfl) ?_ h
  unfold lexeme
  rw [if_neg (by simp [hbreak]), if_pos hc, htake, htext]

/-- A line break is cut off, unless it would join the next character. -/
theorem Lexes.newline (hbreak : IsBreak text)
    (hhead : text.toList = ['\r'] → (charsOf xs).head? ≠ some '\n') (h : Lexes true xs) :
    Lexes lineStart ((.newline, text) :: xs) := by
  obtain ⟨c, cs, chars, front⟩ := lexeme_of_isBreak hbreak hhead lineStart
  exact .cons chars front h

/-- What reads back as white space. -/
theorem Lexes.blanks (h : Lexes lineStart xs) {x : Kind × String} (hx : x ∈ xs)
    (hkind : x.1 = .whitespace) :
    x.2.toList ≠ [] ∧ ∀ c ∈ x.2.toList, (isBlank c && !isLineBreak c) = true := by
  induction h with
  | nil => cases hx
  | @cons lineStart k text c cs xs chars front rest ih =>
      rcases List.mem_cons.1 hx with rfl | hx
      · obtain ⟨-, hwhole⟩ := lexeme_wholeSpace lineStart c cs (by rw [front]; exact hkind)
        have hne := lexeme_chars_ne_nil lineStart c cs
        rw [front] at hwhole hne
        refine ⟨hne, fun d hd => ?_⟩
        rw [show text.toList = _ from hwhole] at hd
        exact List.all_eq_true.1 List.all_takeWhile d hd
      · exact ih hx

/-! ## Behind trivia -/

/-- A block comment that is closed has a character. -/
theorem scanComment_ne_nil {x : List Char} (h : (scanComment x).2 = true) : (scanComment x).1 ≠ [] := by
  fun_cases scanComment x with
  | case1 rest => exact List.cons_ne_nil _ _
  | case2 c cs hopen taken closed hscan => exact List.cons_ne_nil _ _
  | case3 => cases h

/-- A block comment that is closed does not depend on what follows. -/
theorem scanComment_closed {x : List Char} (h : (scanComment x).2 = true) (y : List Char) :
    scanComment ((scanComment x).1 ++ y) = scanComment x := by
  fun_induction scanComment x with
  | case1 rest => rfl
  | case2 c cs hopen taken closed hscan ih =>
      have hne := scanComment_ne_nil (x := cs) (by rw [hscan]; exact h)
      have hprefix := scanComment_isPrefix cs
      rw [hscan] at ih hne hprefix
      obtain ⟨d, taken', rfl⟩ := List.exists_cons_of_ne_nil hne
      obtain ⟨more, rfl⟩ := hprefix
      have hgoesOn : c = '*' → ((d :: taken') ++ y).head? ≠ some '/' := by
        rintro rfl hhead
        obtain rfl : d = '/' := Option.some.inj hhead
        exact hopen (taken' ++ more) rfl rfl
      rw [List.cons_append, scanComment_cons hgoesOn, ih h]
  | case3 => cases h

/-- The same with its opening marks. -/
theorem scanBlockComment_closed {cs taken : List Char}
    (h : scanBlockComment ('/' :: '*' :: cs) = ⟨k, taken, none⟩) :
    ∃ body, taken = '/' :: '*' :: body ∧ ∀ y,
      scanBlockComment ('/' :: '*' :: (body ++ y)) = ⟨k, taken, none⟩ := by
  have hclosed : (scanComment cs).2 = true := closed_of_fault (congrArg Lexeme.fault h)
  refine ⟨(scanComment cs).1, (congrArg Lexeme.chars h).symm, fun y => ?_⟩
  rw [← h]
  simp only [scanBlockComment, List.drop_succ_cons, List.drop_zero, List.take_succ_cons,
    List.take_zero, scanComment_closed hclosed]

/-- A line goes on behind a character that is not blank. -/
theorem scanLine_ne {chars cs : List Char} {d : Char} (hd : isBlank d = false) :
    scanLine (chars ++ d :: cs) ≠ chars := by
  intro h
  have hbreak : isLineBreak d = false := by
    refine Bool.eq_false_iff.2 fun hbreak => ?_
    rcases (isLineBreak_iff d).1 hbreak with rfl | rfl <;> exact absurd hd (by decide)
  have hall : ∀ c ∈ chars, (!isLineBreak c) = true := by
    intro c hc
    rw [← h] at hc
    exact List.all_eq_true.1 List.all_takeWhile c hc
  unfold scanLine at h
  rw [List.takeWhile_append_of_pos hall, List.takeWhile_cons_of_pos (by simp [hbreak])] at h
  simp at h

/-- **What trivia can be.** -/
theorem lexeme_trivia_cases {motive : Lexeme → Prop} {c : Char} {cs : List Char}
    (newline : isLineBreak c = true → motive (scanNewline (c :: cs)))
    (blanks : isBlank c = true →
      motive ⟨.whitespace, (c :: cs).takeWhile (fun d => isBlank d && !isLineBreak d), none⟩)
    (directive : c = '#' → lineStart = true → motive (scanDirective (c :: cs)))
    (lineComment : motive (scanLineComment (c :: cs)))
    (blockComment : c = '/' → cs.head? = some '*' → motive (scanBlockComment (c :: cs)))
    (h : (lexeme lineStart c cs).kind.isTrivia = true) : motive (lexeme lineStart c cs) := by
  revert h
  apply lexeme_cases (motive := fun l => l.kind.isTrivia = true → motive l)
  case newline => exact fun hbreak _ => newline hbreak
  case blanks => exact fun _ hblank _ => blanks hblank
  case directive => exact fun hc hstart _ => directive hc hstart
  case lineComment => exact fun _ _ _ => lineComment
  case blockComment => exact fun hc hsecond _ => blockComment hc hsecond
  case number =>
    intro _ h
    rcases scanNumber_kind (c :: cs) with hk | hk <;> rw [hk] at h <;> cases h
  case string => exact fun _ _ _ h => absurd h nofun
  case char => exact fun _ h => absurd h nofun
  case word =>
    intro _ h
    have hapart : ∀ k : Kind, k.isKeyword = true → k.isTrivia = false := by
      intro k hk
      cases k <;> first | rfl | cases hk
    rcases scanWord_kind (c :: cs) with hk | hk
    · rw [hk] at h
      cases h
    · rw [hapart _ hk] at h
      cases h
  case verbatimWord => exact fun _ _ h => absurd h nofun
  case punctuation =>
    intro _ _ _ h
    have hall : ∀ p ∈ punctuation, p.2.isTrivia = false := by decide
    rcases scanPunctuation_cases c cs with ⟨p, hp, heq⟩ | herror
    · rw [heq, hall p hp] at h
      cases h
    · rw [herror] at h
      cases h

/-- Trivia before a token that is not blank is cut off before another one, too. -/
theorem Lexes.trivia (h : Lexes lineStart ((k, text) :: rest)) (hk : k.isTrivia = true)
    (hrest : Dark rest) (hrest' : Dark rest') (hlexes : ∀ lineStart, Lexes lineStart rest') :
    (∃ b, isStop b = true ∧ text.toList.head? = some b) ∧ Lexes lineStart ((k, text) :: rest') := by
  have hspace := h.blanks (x := (k, text)) List.mem_cons_self
  cases h with
  | @cons _ _ _ c cs _ chars hfront _ =>
      have hne := lexeme_chars_ne_nil lineStart c cs
      have hkind : (lexeme lineStart c cs).kind.isTrivia = true := by rw [hfront]; exact hk
      have hbreak := @isBreak_of_lexeme lineStart c cs text
      rw [hfront] at hne
      obtain ⟨c', x, htext⟩ : ∃ c' x, text.toList = c' :: x := List.exists_cons_of_ne_nil hne
      obtain rfl : c' = c := by
        rw [htext, List.cons_append] at chars
        exact (List.cons.inj chars).1
      suffices hall : isStop c' = true ∧ Lexes lineStart ((k, text) :: rest') from
        ⟨⟨c', hall.1, by rw [htext]; rfl⟩, hall.2⟩
      have hline : scanLine (c' :: cs) ≠ text.toList := by
        obtain ⟨d, ds, hd, hdark⟩ := hrest
        rw [← chars, hd]
        exact scanLine_ne hdark
      rw [hfront] at hbreak
      revert hfront
      apply lexeme_trivia_cases (h := hkind) (motive := fun l => l = ⟨k, text.toList, none⟩ →
        isStop c' = true ∧ Lexes lineStart ((k, text) :: rest'))
      case newline =>
        intro hc heq
        obtain rfl : k = .newline := (congrArg Lexeme.kind heq).symm.trans (scanNewline_kind _)
        refine ⟨isStop_of_isLineBreak hc, .newline (hbreak rfl) (fun _ hhead => ?_) (hlexes true)⟩
        exact absurd (hrest'.head _ hhead) (by decide)
      case blanks =>
        intro hc heq
        obtain rfl : Kind.whitespace = k := congrArg Lexeme.kind heq
        obtain ⟨hne, hblank⟩ := hspace rfl
        exact ⟨isStop_of_isBlank hc, .whitespace hne hblank hrest' (hlexes _)⟩
      case directive => exact fun _ _ heq => absurd (congrArg Lexeme.chars heq) hline
      case lineComment => exact fun heq => absurd (congrArg Lexeme.chars heq) hline
      case blockComment =>
        intro hc hsecond heq
        subst hc
        obtain ⟨cs, rfl⟩ := List.head?_eq_some_iff.1 hsecond
        obtain ⟨body, hbody, hclosed⟩ := scanBlockComment_closed heq
        refine ⟨rfl, @Lexes.cons _ _ _ '/' ('*' :: (body ++ charsOf rest')) _ ?_ ?_ (hlexes _)⟩
        · rw [hbody]
          rfl
        · exact hclosed (charsOf rest')

/-- **Behind trivia, one token that is not blank can stand for another.** -/
theorem Lexes.behind_trivia (h : Lexes lineStart (front ++ (k, text) :: rest))
    (hk : k.isTrivia = true) (hrest : Dark rest) (hrest' : Dark rest')
    (hlexes : ∀ lineStart, Lexes lineStart rest') : Lexes lineStart (front ++ (k, text) :: rest') := by
  obtain ⟨⟨b, hb, hfirst⟩, hnew⟩ := h.of_append.trivia hk hrest hrest' hlexes
  refine h.behind ?_ hnew
  rw [charsOf_cons, charsOf_cons]
  exact near_of_stop hb hfirst

end CodeMend.Lexer

import CodeMend.Proofs.Lexer.Cutting
import CodeMend.Proofs.Lexer.Seams
import Mathlib.Data.List.TakeWhile

/-!
# Tokens that hold line breaks

Line breaks are to be tokens of their own, apart from those in block comments and verbatim strings
(`Token.KeepsLine`).  Two kinds of tokens take others along:

* a quoted literal ends at a line break, but a backslash takes the character behind it along, whatever
  it is, and so a line break, too (`scanQuoted_escapes`);
* a string is read as verbatim behind two marks, also if they are the same (`twiceMarked`).

`keepsLine_iff` says that these are all, and `not_keepsLine` that there are such texts.
-/

namespace CodeMend.Lexer

open Text

/-- Is there a line break among the characters? -/
def HoldsBreak (cs : List Char) : Prop := ∃ b ∈ cs, isLineBreak b = true

/-- Is there a backslash right before a line break? -/
def EscapesBreak (cs : List Char) : Prop := ['\\', '\n'] <:+: cs ∨ ['\\', '\r'] <:+: cs

/-- How a verbatim string opens. -/
def verbatimOpenings : List (List Char) := [['@', '"'], ['$', '@', '"'], ['@', '$', '"']]

/-- What opens a string with one mark written twice. -/
def twiceMarked : List (List Char) := [['$', '$', '"'], ['@', '@', '"']]

/-- Do the characters open in one of these ways? -/
def OpensWith (openings : List (List Char)) (cs : List Char) : Prop := ∃ o ∈ openings, o <+: cs

instance (cs : List Char) : Decidable (HoldsBreak cs) :=
  List.decidableBEx (fun b => isLineBreak b = true) cs

instance (cs : List Char) : Decidable (EscapesBreak cs) := inferInstanceAs (Decidable (_ ∨ _))

instance (openings : List (List Char)) (cs : List Char) : Decidable (OpensWith openings cs) :=
  inferInstanceAs (Decidable (∃ o ∈ openings, _))

theorem EscapesBreak.of_isInfix {cs ds : List Char} (h : EscapesBreak cs) (hcs : cs <:+: ds) :
    EscapesBreak ds :=
  h.imp (·.trans hcs) (·.trans hcs)

theorem EscapesBreak.holdsBreak {cs : List Char} (h : EscapesBreak cs) : HoldsBreak cs := by
  rcases h with h | h
  · exact ⟨'\n', h.subset (by simp), rfl⟩
  · exact ⟨'\r', h.subset (by simp), rfl⟩

/-! ## Scanners that stop at line breaks -/

/-- A scanner that stops at line breaks sees no line break. -/
theorem exists_unbroken {α : Type} {scan : List Char → α}
    (hstop : ∀ b x v, isStop b = true → scan (x ++ b :: v) = scan x) (cs : List Char) :
    ∃ x, (∀ d ∈ x, isLineBreak d = false) ∧ scan cs = scan x := by
  refine ⟨cs.takeWhile (fun d => !isLineBreak d), fun d hd => by
    simpa using List.mem_takeWhile_imp hd, ?_⟩
  have hsplit := List.takeWhile_append_dropWhile (p := fun d => !isLineBreak d) (l := cs)
  have hhead := List.head?_dropWhile_not (fun d => !isLineBreak d) cs
  cases hdrop : cs.dropWhile (fun d => !isLineBreak d) with
  | nil => exact congrArg scan (by rw [← List.append_nil (cs.takeWhile _), ← hdrop, hsplit])
  | cons b v =>
      rw [hdrop] at hsplit hhead
      have hb : isLineBreak b = true := by simpa using hhead
      exact (congrArg scan hsplit.symm).trans (hstop b _ v (isStop_of_isLineBreak hb))

theorem not_holdsBreak_scanNumber (cs : List Char) : ¬ HoldsBreak (scanNumber cs).chars := by
  obtain ⟨x, hx, hscan⟩ := exists_unbroken (fun b x v hb => scanNumber_stop hb x v) cs
  rintro ⟨b, hb, hbreak⟩
  rw [hscan] at hb
  rw [hx b ((scanNumber_isPrefix x).subset hb)] at hbreak
  cases hbreak

/-- No mark holds a line break, and neither does one character that is none. -/
theorem not_holdsBreak_scanPunctuation {c : Char} (hc : isLineBreak c = false) (cs : List Char) :
    ¬ HoldsBreak (scanPunctuation c cs).chars := by
  obtain ⟨x, hx, hscan⟩ := exists_unbroken (fun b x v hb => scanPunctuation_stop hb c x v) cs
  rintro ⟨b, hb, hbreak⟩
  rw [hscan] at hb
  rcases List.mem_cons.1 ((scanPunctuation_isPrefix c x).subset hb) with rfl | hb
  · rw [hc] at hbreak
    cases hbreak
  · rw [hx b hb] at hbreak
    cases hbreak

theorem not_holdsBreak_takeWhile {p : Char → Bool} (hp : ∀ b, isLineBreak b = true → p b = false)
    (cs : List Char) : ¬ HoldsBreak (cs.takeWhile p) := by
  rintro ⟨b, hb, hbreak⟩
  have hpb := List.mem_takeWhile_imp hb
  rw [hp b hbreak] at hpb
  cases hpb

theorem not_isWordPart_of_isLineBreak (b : Char) (hb : isLineBreak b = true) :
    isWordPart b = false :=
  isWordPart_stop (isStop_of_isLineBreak hb)

theorem not_holdsBreak_scanLine (cs : List Char) : ¬ HoldsBreak (scanLine cs) :=
  not_holdsBreak_takeWhile (fun b hb => by rw [hb]; rfl) cs

/-! ## Quoted literals -/

/-- **Only a backslash takes a line break into a quoted literal.** -/
theorem scanQuoted_escapes {quote : Char} (hquote : isLineBreak quote = false) {cs : List Char}
    (h : HoldsBreak (scanQuoted quote cs).1) : EscapesBreak (scanQuoted quote cs).1 := by
  fun_induction scanQuoted quote cs with
  | case1 =>
      obtain ⟨b, hb, -⟩ := h
      cases hb
  | case2 c cs taken closed hscan ih =>
      rw [hscan] at ih
      obtain ⟨b, hb, hbreak⟩ := h
      by_cases hc : isLineBreak c = true
      · rcases (isLineBreak_iff c).1 hc with rfl | rfl
        · exact .inl ⟨[], taken, rfl⟩
        · exact .inr ⟨[], taken, rfl⟩
      · have hmem : b ∈ taken := by
          rcases List.mem_cons.1 hb with rfl | hb
          · cases hbreak
          · exact (List.mem_cons.1 hb).resolve_left fun hbc => hc (hbc ▸ hbreak)
        exact (ih ⟨b, hmem, hbreak⟩).of_isInfix (List.suffix_append ['\\', c] taken).isInfix
  | case3 c cs _ hc =>
      obtain ⟨b, hb, hbreak⟩ := h
      rw [List.mem_singleton.1 hb, beq_iff_eq.1 hc, hquote] at hbreak
      cases hbreak
  | case4 c cs _ hc hc' =>
      obtain ⟨b, hb, -⟩ := h
      cases hb
  | case5 c cs _ hc hc' taken closed hscan ih =>
      rw [hscan] at ih
      obtain ⟨b, hb, hbreak⟩ := h
      have hmem : b ∈ taken := (List.mem_cons.1 hb).resolve_left fun hbc => hc' (hbc ▸ hbreak)
      exact (ih ⟨b, hmem, hbreak⟩).of_isInfix (List.suffix_cons c taken).isInfix

/-- A quoted literal behind its opening. -/
theorem escapes_of_opening {quote : Char} (hquote : isLineBreak quote = false) {front cs : List Char}
    (hfront : ¬ HoldsBreak front) (h : HoldsBreak (front ++ (scanQuoted quote cs).1)) :
    EscapesBreak (front ++ (scanQuoted quote cs).1) := by
  obtain ⟨b, hb, hbreak⟩ := h
  have hmem := (List.mem_append.1 hb).resolve_left fun hb => hfront ⟨b, hb, hbreak⟩
  exact (scanQuoted_escapes hquote ⟨b, hmem, hbreak⟩).of_isInfix (List.suffix_append _ _).isInfix

/-! ## All tokens -/

/-- What a token with a line break is. -/
def BreakingLexeme (l : Lexeme) : Prop :=
  l.kind = .newline ∨ l.kind = .blockComment ∨
    (l.kind = .stringLiteral ∧ OpensWith (verbatimOpenings ++ twiceMarked) l.chars) ∨
    ((l.kind = .stringLiteral ∨ l.kind = .charLiteral) ∧ EscapesBreak l.chars)

/-- **A line break is a token, in a block comment, in a string with two marks or a verbatim one, or
behind a backslash in a quoted literal.** -/
theorem lexeme_breaking (lineStart : Bool) (c : Char) (cs : List Char) :
    HoldsBreak (lexeme lineStart c cs).chars → BreakingLexeme (lexeme lineStart c cs) := by
  apply lexeme_cases (motive := fun l => HoldsBreak l.chars → BreakingLexeme l)
  case newline => exact fun _ _ => .inl (scanNewline_kind _)
  case blanks =>
    exact fun _ _ h => absurd h (not_holdsBreak_takeWhile (fun b hb => by rw [hb, Bool.not_true,
      Bool.and_false]) _)
  case directive => exact fun _ _ h => absurd h (not_holdsBreak_scanLine _)
  case lineComment => exact fun _ _ h => absurd h (not_holdsBreak_scanLine _)
  case blockComment => exact fun _ _ _ => .inr (.inl rfl)
  case number => exact fun _ h => absurd h (not_holdsBreak_scanNumber _)
  case string =>
    intro opening verbatim hopens h
    cases hopens with
    | plain cs =>
        have hopening : ¬ HoldsBreak ['"'] := by decide
        exact .inr (.inr (.inr ⟨.inl rfl, escapes_of_opening rfl hopening h⟩))
    | interpolated cs =>
        have hopening : ¬ HoldsBreak ['$', '"'] := by decide
        exact .inr (.inr (.inr ⟨.inl rfl, escapes_of_opening rfl hopening h⟩))
    | verbatim cs =>
        exact .inr (.inr (.inl ⟨rfl, ['@', '"'], by decide, List.prefix_append _ _⟩))
    | @marked _ d first second cs =>
        refine .inr (.inr (.inl ⟨rfl, [c, d, '"'], ?_, List.prefix_append _ _⟩))
        rcases first with rfl | rfl <;> rcases second with rfl | rfl <;> decide
  case char =>
    rintro rfl h
    have hopening : ¬ HoldsBreak ['\''] := by decide
    exact .inr (.inr (.inr ⟨.inr rfl, escapes_of_opening rfl hopening h⟩))
  case word =>
    exact fun _ h => absurd h (not_holdsBreak_takeWhile not_isWordPart_of_isLineBreak _)
  case verbatimWord =>
    rintro rfl _ ⟨b, hb, hbreak⟩
    rcases List.mem_cons.1 hb with rfl | hb
    · cases hbreak
    · exact absurd ⟨b, hb, hbreak⟩ (not_holdsBreak_takeWhile not_isWordPart_of_isLineBreak cs)
  case punctuation => exact fun hc _ _ h => absurd h (not_holdsBreak_scanPunctuation hc cs)

end CodeMend.Lexer

namespace CodeMend

open Lexer

namespace Token

/-- A verbatim string. -/
def IsVerbatim (t : Token) : Prop :=
  t.kind = .stringLiteral ∧ OpensWith verbatimOpenings t.text.toList

/-- **The property.**  A token with a line break is a line break, a block comment or a verbatim
string. -/
def KeepsLine (t : Token) : Prop :=
  HoldsBreak t.text.toList → t.kind = .newline ∨ t.kind = .blockComment ∨ t.IsVerbatim

/-- A literal that goes on behind its line: a line break follows a backslash in it, or it is read as
verbatim for a mark that is written twice. -/
def Overruns (t : Token) : Prop :=
  ((t.kind = .stringLiteral ∨ t.kind = .charLiteral) ∧ ¬ t.IsVerbatim ∧
    EscapesBreak t.text.toList) ∨
  (t.kind = .stringLiteral ∧ OpensWith twiceMarked t.text.toList ∧ HoldsBreak t.text.toList)

instance (t : Token) : Decidable t.IsVerbatim := inferInstanceAs (Decidable (_ ∧ _))

instance (t : Token) : Decidable t.KeepsLine := inferInstanceAs (Decidable (_ → _))

instance (t : Token) : Decidable t.Overruns := inferInstanceAs (Decidable (_ ∨ _))

/-- No opening of a verbatim string starts with one mark written twice. -/
theorem not_isVerbatim_of_twiceMarked {t : Token} (h : OpensWith twiceMarked t.text.toList) :
    ¬ t.IsVerbatim := by
  rintro ⟨-, o, ho, hprefix⟩
  obtain ⟨o', ho', hprefix'⟩ := h
  have hapart : ∀ o ∈ verbatimOpenings, ∀ o' ∈ twiceMarked, ¬ (o <+: o') ∧ ¬ (o' <+: o) := by decide
  rcases List.prefix_or_prefix_of_prefix hprefix hprefix' with h | h
  · exact (hapart o ho o' ho').1 h
  · exact (hapart o ho o' ho').2 h

end Token

/-- **Exactly the literals that overrun their line break the property.** -/
theorem keepsLine_iff (text : String) : ∀ t ∈ (lex text).1, (t.KeepsLine ↔ ¬ t.Overruns) := by
  intro t ht
  constructor
  · intro hkeeps hover
    have hliteral : (t.kind = .stringLiteral ∨ t.kind = .charLiteral) ∧ ¬ t.IsVerbatim ∧
        HoldsBreak t.text.toList := by
      rcases hover with ⟨hkind, hverbatim, hescapes⟩ | ⟨hkind, hmarked, hbreak⟩
      · exact ⟨hkind, hverbatim, hescapes.holdsBreak⟩
      · exact ⟨.inl hkind, Token.not_isVerbatim_of_twiceMarked hmarked, hbreak⟩
    obtain ⟨hkind, hverbatim, hbreak⟩ := hliteral
    rcases hkeeps hbreak with h | h | h
    · rcases hkind with hkind | hkind <;> cases hkind.symm.trans h
    · rcases hkind with hkind | hkind <;> cases hkind.symm.trans h
    · exact hverbatim h
  · intro hover hbreak
    rcases (cuts_lex text).exists_lexeme t ht with ⟨-, hempty⟩ | ⟨ls, d, ds, hkind, htext⟩
    · obtain ⟨b, hb, -⟩ := hbreak
      rw [hempty] at hb
      cases hb
    · have hbreaking := lexeme_breaking ls d ds (htext ▸ hbreak)
      rw [BreakingLexeme, ← hkind, ← htext] at hbreaking
      by_contra hnot
      obtain ⟨hnewline, hcomment, hverbatim⟩ : t.kind ≠ .newline ∧ t.kind ≠ .blockComment ∧
          ¬ t.IsVerbatim := by simpa only [not_or] using hnot
      rcases hbreaking with h | h | ⟨hstring, o, ho, hprefix⟩ | ⟨hliteral, hescapes⟩
      · exact hnewline h
      · exact hcomment h
      · rcases List.mem_append.1 ho with ho | ho
        · exact hverbatim ⟨hstring, o, ho, hprefix⟩
        · exact hover (.inr ⟨hstring, ⟨o, ho, hprefix⟩, hbreak⟩)
      · exact hover (.inl ⟨hliteral, hverbatim, hescapes⟩)

/-- A string that a backslash takes over its line. -/
theorem keepsLine_iff_escaped :
    let t : Token := ⟨.stringLiteral, "\"a\\\nb\"", 0⟩
    t ∈ (lex "\"a\\\nb\"").1 ∧ (t.KeepsLine ↔ ¬ t.Overruns) :=
  have hmem : (⟨.stringLiteral, "\"a\\\nb\"", 0⟩ : Token) ∈ (lex "\"a\\\nb\"").1 := by decide +kernel
  ⟨hmem, keepsLine_iff "\"a\\\nb\"" _ hmem⟩

/-- There are texts with tokens that break the property: a backslash takes a line break into a
string, and so do two dollars before it. -/
theorem not_keepsLine :
    (∃ t ∈ (lex "\"a\\\nb\"").1, ¬ t.KeepsLine) ∧ ∃ t ∈ (lex "$$\"\n\"").1, ¬ t.KeepsLine := by
  constructor
  · decide +kernel
  · decide +kernel

end CodeMend

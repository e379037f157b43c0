import CodeMend.Proofs.Lexer.Cutting
import CodeMend.Proofs.Lexer.Seams
import Mathlib.Data.List.Induction

/-!
# Directives stand at the start of a line

The lexer carries along whether only blanks have been seen on the line.  This is `AtLineStart` of the
tokens read so far (`lineStartAfter_iff`): white space behind the last line break or behind the start
of the text.  So a token is a directive exactly if it starts with a hash and stands there
(`isDirective_iff`).
-/

namespace CodeMend

/-- Behind tokens of these kinds a line starts: nothing but white space lies between there and the
line break before, or the start of the text. -/
def AtLineStart (before : List Kind) : Prop :=
  ∃ front blanks, before = front ++ blanks ∧ (∀ k ∈ blanks, k = .whitespace) ∧
    ∀ k ∈ front.getLast?, k = .newline

theorem atLineStart_nil : AtLineStart [] := ⟨[], [], rfl, nofun, nofun⟩

/-- One more token: a line break starts a line, white space leaves it as it is, and anything else
ends its start. -/
theorem atLineStart_concat {before : List Kind} {k : Kind} :
    AtLineStart (before ++ [k]) ↔ k = .newline ∨ (k = .whitespace ∧ AtLineStart before) := by
  constructor
  · rintro ⟨front, blanks, hsplit, hblanks, hfront⟩
    rcases List.eq_nil_or_concat blanks with rfl | ⟨blanks, l, rfl⟩
    · rw [List.append_nil] at hsplit
      exact .inl (hfront k (by simp [← hsplit]))
    · rw [List.concat_eq_append, ← List.append_assoc] at hsplit
      obtain ⟨rfl, hk⟩ := List.append_inj' hsplit rfl
      obtain rfl : k = l := by simpa using hk
      exact .inr ⟨hblanks k (by simp), front, blanks, rfl,
        fun l hl => hblanks l (by simp [hl]), hfront⟩
  · rintro (rfl | ⟨rfl, front, blanks, rfl, hblanks, hfront⟩)
    · exact ⟨before ++ [.newline], [], by simp, nofun, by simp⟩
    · refine ⟨front, blanks ++ [.whitespace], by simp, fun l hl => ?_, hfront⟩
      rcases List.mem_append.1 hl with hl | hl
      · exact hblanks l hl
      · exact List.mem_singleton.1 hl

/-- On a line that has a significant token, no further line starts before its break. -/
theorem not_atLineStart {before : List Kind} {k : Kind} (hk : k.isTrivia = false) {more : List Kind}
    (hmore : ∀ l ∈ more, l ≠ .newline) : ¬ AtLineStart (before ++ k :: more) := by
  induction more using List.reverseRecOn with
  | nil =>
      rw [atLineStart_concat]
      rintro (rfl | ⟨rfl, -⟩) <;> cases hk
  | append_singleton more l ih =>
      rw [← List.cons_append, ← List.append_assoc, atLineStart_concat]
      rintro (rfl | ⟨-, h⟩)
      · exact hmore .newline (by simp) rfl
      · exact ih (fun l hl => hmore l (by simp [hl])) h

namespace Lexer

open Text Tree

/-- **What the lexer carries along** is whether a line starts behind the tokens read so far. -/
theorem lineStartAfter_iff (xs : Stored) :
    lineStartAfter true xs = true ↔ AtLineStart (xs.map Prod.fst) := by
  induction xs using List.reverseRecOn with
  | nil => exact iff_of_true rfl atLineStart_nil
  | append_singleton xs x ih =>
      rw [List.map_append, List.map_singleton, atLineStart_concat, ← ih]
      simp [lineStartAfter, List.foldl_append, nextLineStart, and_comm]

/-- A hash at the start of a line makes a directive, and nothing else does. -/
theorem lexeme_isDirective_iff (lineStart : Bool) (c : Char) (cs : List Char) :
    (lexeme lineStart c cs).kind.isDirective = true ↔ c = '#' ∧ lineStart = true := by
  constructor
  · intro h
    have htrivia : (lexeme lineStart c cs).kind.isTrivia = true := by simp [Kind.isTrivia, h]
    revert h
    apply lexeme_trivia_cases (h := htrivia)
      (motive := fun l => l.kind.isDirective = true → c = '#' ∧ lineStart = true)
    case newline =>
      intro _ h
      rw [scanNewline_kind] at h
      cases h
    case blanks => exact fun _ h => absurd h Bool.false_ne_true
    case directive => exact fun hc hstart _ => ⟨hc, hstart⟩
    case lineComment =>
      intro h
      rcases scanLineComment_kind (c :: cs) with hk | hk <;> rw [hk] at h <;> cases h
    case blockComment => exact fun _ _ h => absurd h Bool.false_ne_true
  · rintro ⟨rfl, rfl⟩
    exact directiveKind_isDirective _

end Lexer

open Lexer Tree

/-- **A token is a directive exactly if it starts with a hash and a line starts before it.** -/
theorem isDirective_iff {text : String} {before after : Stored} {x : Kind × String}
    (h : (lex text).1.map Token.stored = before ++ x :: after) :
    x.1.isDirective = true ↔ x.2.toList.head? = some '#' ∧ AtLineStart (before.map Prod.fst) := by
  obtain ⟨front, rest, htokens, rfl, hrest⟩ := List.map_eq_append_iff.1 h
  obtain ⟨t, back, rfl, rfl, rfl⟩ := List.map_eq_cons_iff.1 hrest
  obtain ⟨rest, es, -, hcuts⟩ := (htokens ▸ cuts_lex text).split
  rw [← lineStartAfter_iff]
  generalize lineStartAfter true (front.map Token.stored) = lineStart at hcuts ⊢
  show t.kind.isDirective = true ↔ t.text.toList.head? = some '#' ∧ lineStart = true
  cases hcuts with
  | done => exact iff_of_false nofun nofun
  | @token _ _ c cs _ _ _ _ place kind spelling chars tail =>
      have hhead : t.text.toList.head? = some c := by
        have hne := lexeme_chars_ne_nil lineStart c cs
        obtain ⟨d, ds, hds⟩ := List.exists_cons_of_ne_nil (spelling ▸ hne)
        rw [hds] at chars ⊢
        exact congrArg some (List.cons.inj chars).1
      rw [kind, lexeme_isDirective_iff, hhead, Option.some_inj]

end CodeMend

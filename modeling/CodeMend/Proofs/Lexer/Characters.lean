import CodeMend.Syntax.Lexer

/-!
# Classes of characters

Digits and letters are parts of words, and blanks are not (`isWordPart_of_isBlank`).  So numbers, words
and operators end where a blank, a semicolon, a closing brace or a slash stands (`isStop`).
-/

namespace CodeMend.Lexer

open Text

/-! ## Blanks and parts of words -/

/-- A code point is in a set if it is in one of its ranges. -/
theorem inRanges_iff (ranges : List (Nat × Nat)) (n : Nat) :
    inRanges ranges n = true ↔ ∃ r ∈ ranges, r.1 ≤ n ∧ n ≤ r.2 := by
  induction ranges with
  | nil => simp [inRanges]
  | cons r ranges ih => simp [inRanges, ih]

/-- Sets whose ranges lie apart have no code point in common. -/
theorem inRanges_apart {xs ys : List (Nat × Nat)}
    (h : (xs.all fun x => ys.all fun y => decide (x.2 < y.1) || decide (y.2 < x.1)) = true) {n : Nat}
    (hx : inRanges xs n = true) : inRanges ys n = false := by
  cases hy : inRanges ys n with
  | false => rfl
  | true =>
      obtain ⟨x, hx, hlow, hhigh⟩ := (inRanges_iff xs n).1 hx
      obtain ⟨y, hy, hlow', hhigh'⟩ := (inRanges_iff ys n).1 hy
      have hapart : x.2 < y.1 ∨ y.2 < x.1 := by
        simpa using List.all_eq_true.1 (List.all_eq_true.1 h x hx) y hy
      omega

/-- The blanks of ASCII come before all visible characters. -/
theorem isBlank_ascii {c : Char} (hc : isBlank c = true) (hascii : c.toNat < 128) :
    c.toNat ≤ 32 := by
  obtain ⟨r, hr, hlow, hhigh⟩ := (inRanges_iff _ _).1 hc
  have hbound : (blankRanges.all fun r => decide (r.2 ≤ 32) || decide (128 ≤ r.1)) = true := by decide
  have hr : r.2 ≤ 32 ∨ 128 ≤ r.1 := by simpa using List.all_eq_true.1 hbound r hr
  omega

/-- The letters of ASCII. -/
theorem isAlpha_iff {c : Char} : c.isAlpha = true ↔
    65 ≤ c.toNat ∧ c.toNat ≤ 90 ∨ 97 ≤ c.toNat ∧ c.toNat ≤ 122 := by
  have hcases : c.isAlpha =
      (decide (65 ≤ c.val ∧ c.val ≤ 90) || decide (97 ≤ c.val) && decide (c.val ≤ 122)) := rfl
  rw [hcases]
  simp [UInt32.le_iff_toNat_le]

/-- A blank is no part of a word. -/
theorem isWordPart_of_isBlank {c : Char} (h : isBlank c = true) : isWordPart c = false := by
  have hgap : (c == '_') = false := by
    rw [beq_eq_false_iff_ne]
    rintro rfl
    exact absurd h (by decide)
  by_cases hascii : c.toNat < 128
  · have hlow := isBlank_ascii h hascii
    have halpha : c.isAlpha = false := by
      rw [← Bool.not_eq_true, isAlpha_iff]
      omega
    have hdigit : c.isDigit = false := by
      simp [Char.isDigit, UInt32.le_iff_toNat_le]
      omega
    simp [isWordPart, isLetter, isNumber, hascii, halpha, hdigit, hgap]
  · have hletter : inRanges alphabeticRanges c.toNat = false := inRanges_apart (by decide +kernel) h
    have hnumber : inRanges numericRanges c.toNat = false := inRanges_apart (by decide +kernel) h
    simp [isWordPart, isLetter, isNumber, hascii, hletter, hnumber, hgap]

/-- No part of a word is a blank. -/
theorem not_isBlank_of_isWordPart {c : Char} (h : isWordPart c = true) : isBlank c = false := by
  cases hblank : isBlank c with
  | false => rfl
  | true =>
      rw [isWordPart_of_isBlank hblank] at h
      cases h

/-- Digits are parts of words. -/
theorem isWordPart_of_isDigit {c : Char} (h : c.isDigit = true) : isWordPart c = true := by
  have hascii : c.toNat < 128 := by
    simp [Char.isDigit, UInt32.le_iff_toNat_le] at h
    omega
  simp [isWordPart, isNumber, hascii, h]

/-- Letters of ASCII are parts of words. -/
theorem isWordPart_of_isAlpha {c : Char} (h : c.isAlpha = true) : isWordPart c = true := by
  have hascii : c.toNat < 128 := by
    have := isAlpha_iff.1 h
    omega
  simp [isWordPart, isLetter, hascii, h]

/-- What starts a word is part of one. -/
theorem isWordPart_of_isWordStart {c : Char} (h : isWordStart c = true) : isWordPart c = true := by
  rcases Bool.or_eq_true_iff.1 h with h | h <;> simp [isWordPart, h]

/-- Digits and the marks between them are parts of words. -/
theorem isWordPart_of_isDigitOrGap {c : Char} (h : isDigitOrGap c = true) : isWordPart c = true := by
  rcases Bool.or_eq_true_iff.1 h with h | h
  · exact isWordPart_of_isDigit h
  · rw [beq_iff_eq.1 h]
    decide

/-- So are hexadecimal digits. -/
theorem isWordPart_of_isHexDigitOrGap {c : Char} (h : (isHexDigit c || c == '_') = true) :
    isWordPart c = true := by
  have hletter (lo hi : Char)
      (hrange : 65 ≤ lo.toNat ∧ hi.toNat ≤ 90 ∨ 97 ≤ lo.toNat ∧ hi.toNat ≤ 122)
      (hc : (decide (lo ≤ c) && decide (c ≤ hi)) = true) : isWordPart c = true := by
    simp only [Bool.and_eq_true, decide_eq_true_eq, Char.le_def, UInt32.le_iff_toNat_le] at hc
    have hbounds : lo.toNat ≤ c.toNat ∧ c.toNat ≤ hi.toNat := hc
    exact isWordPart_of_isAlpha (isAlpha_iff.2 (by omega))
  rcases Bool.or_eq_true_iff.1 h with h | h
  · rcases Bool.or_eq_true_iff.1 h with h | h
    · rcases Bool.or_eq_true_iff.1 h with h | h
      · exact isWordPart_of_isDigit h
      · exact hletter 'a' 'f' (by decide) h
    · exact hletter 'A' 'F' (by decide) h
  · rw [beq_iff_eq.1 h]
    decide

/-! ## Stops -/

variable {b : Char}

/-- There are two characters of line breaks. -/
theorem isLineBreak_iff (c : Char) : isLineBreak c = true ↔ c = '\n' ∨ c = '\r' := by
  simp [isLineBreak]

/-- Is it a character at which numbers, words and operators end: a blank, a semicolon, a closing brace
or a slash? -/
def isStop (b : Char) : Bool := isBlank b || b == ';' || b == '\x7d' || b == '/'

/-- Blanks are stops. -/
theorem isStop_of_isBlank (hb : isBlank b = true) : isStop b = true := by
  simp [isStop, hb]

/-- Line breaks are stops. -/
theorem isStop_of_isLineBreak (hb : isLineBreak b = true) : isStop b = true := by
  rcases (isLineBreak_iff b).1 hb with rfl | rfl <;> rfl

/-- No stop is part of a word. -/
theorem isWordPart_stop (hb : isStop b = true) : isWordPart b = false := by
  have hcases : ((isBlank b = true ∨ b = ';') ∨ b = '\x7d') ∨ b = '/' := by simpa [isStop] using hb
  rcases hcases with ((h | rfl) | rfl) | rfl
  · exact isWordPart_of_isBlank h
  all_goals decide

/-- A stop is in no class of parts of words. -/
theorem eq_false_of_isStop {p : Char → Bool} (hp : ∀ {c}, p c = true → isWordPart c = true)
    (hb : isStop b = true) : p b = false := by
  refine Bool.eq_false_iff.2 fun h => ?_
  have hpart := hp h
  rw [isWordPart_stop hb] at hpart
  cases hpart

/-- No stop is a digit. -/
theorem isDigit_stop (hb : isStop b = true) : b.isDigit = false :=
  eq_false_of_isStop isWordPart_of_isDigit hb

/-- No stop is a letter. -/
theorem isAlpha_stop (hb : isStop b = true) : b.isAlpha = false :=
  eq_false_of_isStop isWordPart_of_isAlpha hb

/-- No stop stands inside a number. -/
theorem isDigitOrGap_stop (hb : isStop b = true) : isDigitOrGap b = false :=
  eq_false_of_isStop isWordPart_of_isDigitOrGap hb

/-- No stop stands inside a hexadecimal number. -/
theorem isHexDigitOrGap_stop (hb : isStop b = true) : (isHexDigit b || b == '_') = false :=
  eq_false_of_isStop (p := fun c => isHexDigit c || c == '_') isWordPart_of_isHexDigitOrGap hb

/-- No stop starts a word. -/
theorem isWordStart_stop (hb : isStop b = true) : isWordStart b = false :=
  eq_false_of_isStop isWordPart_of_isWordStart hb

/-- A stop is none of the characters that are no stops. -/
theorem ne_of_isStop {c : Char} (hb : isStop b = true) (hc : isStop c = false) : b ≠ c := by
  rintro rfl
  rw [hb] at hc
  cases hc

end CodeMend.Lexer

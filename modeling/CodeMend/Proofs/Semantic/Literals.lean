import CodeMend.Proofs.Lexer.Cutting
import CodeMend.Proofs.Parser.Numerals

/-!
# Integer literals

An integer is read from its digits and the mark of its base, with underscores between them and a suffix
behind them (`Constant.Written`).  The lexer cuts a number at other places: it knows the mark `x` alone,
and only right behind the zero; other letters are a suffix, and a suffix goes on to the first character
that is no letter (`Lexer.scanNumber_whole_iff`).

So of the literals that start with a digit and have a value, the decimal ones are one token, and so are
the hexadecimal ones whose mark stands right behind the zero.  Binary ones never are
(`lex_literal_iff`).
-/

namespace CodeMend

namespace Constant

/-! ## What is read -/

/-- The bases in which an integer is written. -/
inductive Base where
  | decimal
  | hexadecimal
  | binary
deriving DecidableEq

/-- How many digits a base has. -/
def Base.radix : Base → Nat
  | decimal => 10
  | hexadecimal => 16
  | binary => 2

/-- The base of digits by the mark before them, and the digits behind the mark. -/
def unmark : List Char → Base × List Char
  | '0' :: 'x' :: cs => (.hexadecimal, cs)
  | '0' :: 'X' :: cs => (.hexadecimal, cs)
  | '0' :: 'b' :: cs => (.binary, cs)
  | '0' :: 'B' :: cs => (.binary, cs)
  | cs => (.decimal, cs)

/-- A literal without its suffix. -/
def unsuffixed (text : String) : List Char := (text.toList.reverse.dropWhile isIntSuffix).reverse

/-- The base of a literal; underscores do not count. -/
def baseOf (text : String) : Base := (unmark ((unsuffixed text).filter (· != '_'))).1

/-- Reading an integer takes off the suffix, the gaps and the mark of the base, and checks the
number that is left. -/
theorem readInt_eq (text : String) : readInt? text =
    (digits? (baseOf text).radix (unmark ((unsuffixed text).filter (· != '_'))).2).bind
      fun n => checked n := by
  unfold readInt? baseOf
  rw [← unsuffixed]
  dsimp only
  generalize (unsuffixed text).filter (· != '_') = ds
  fun_cases unmark ds with
  | case5 ds hlower hupper hlower' hupper' =>
      split
      · exact absurd rfl (hlower _)
      · exact absurd rfl (hupper _)
      · exact absurd rfl (hlower' _)
      · exact absurd rfl (hupper' _)
      · rfl
  | _ => rfl

/-- The marks of the bases. -/
theorem unmark_cases (ds : List Char) :
    (∃ mark cs, ds = '0' :: mark :: cs ∧ (mark = 'x' ∨ mark = 'X') ∧ unmark ds = (.hexadecimal, cs)) ∨
    (∃ mark cs, ds = '0' :: mark :: cs ∧ (mark = 'b' ∨ mark = 'B') ∧ unmark ds = (.binary, cs)) ∨
    unmark ds = (.decimal, ds) := by
  fun_cases unmark ds with
  | case1 cs => exact .inl ⟨'x', cs, rfl, .inl rfl, rfl⟩
  | case2 cs => exact .inl ⟨'X', cs, rfl, .inr rfl, rfl⟩
  | case3 cs => exact .inr (.inl ⟨'b', cs, rfl, .inl rfl, rfl⟩)
  | case4 cs => exact .inr (.inl ⟨'B', cs, rfl, .inr rfl, rfl⟩)
  | case5 ds => exact .inr (.inr rfl)

/-- A digit of a base up to ten is a decimal one. -/
theorem isDigit_of_digit (base : Nat) (hbase : base ≤ 10) {c : Char} (h : (digit? base c).isSome) :
    c.isDigit = true := by
  by_contra hnot
  unfold digit? at h
  rw [if_neg hnot] at h
  have hge : ¬ (if 'a' ≤ c ∧ c ≤ 'f' then c.toNat - 'a'.toNat + 10
      else if 'A' ≤ c ∧ c ≤ 'F' then c.toNat - 'A'.toNat + 10 else base) < base := by
    split
    · omega
    · split <;> omega
  dsimp only at h
  rw [if_neg hge] at h
  cases h

/-- What counts as a digit in base sixteen is one for the lexer. -/
theorem isHexDigit_of_digit {c : Char} (h : (digit? 16 c).isSome) : Lexer.isHexDigit c = true := by
  unfold digit? at h
  unfold Lexer.isHexDigit
  by_cases hdigit : c.isDigit = true
  · simp [hdigit]
  · by_cases hlower : 'a' ≤ c ∧ c ≤ 'f'
    · simp [hlower]
    · by_cases hupper : 'A' ≤ c ∧ c ≤ 'F'
      · simp [hupper]
      · simp [hdigit, hlower, hupper] at h

/-- Where all characters were read as digits, each of them is one. -/
theorem digits_of_foldlM {base m n : Nat} {cs : List Char}
    (h : cs.foldlM (fun n c => (digit? base c).map (base * n + ·)) m = some n) :
    ∀ c ∈ cs, (digit? base c).isSome := by
  induction cs generalizing m with
  | nil => exact nofun
  | cons c cs ih =>
      rw [List.foldlM_cons, Option.bind_eq_bind, Option.bind_eq_some_iff] at h
      obtain ⟨k, hk, hrest⟩ := h
      obtain ⟨d, hd, -⟩ := Option.map_eq_some_iff.1 hk
      exact List.forall_mem_cons.2 ⟨by rw [hd]; rfl, ih hrest⟩

/-- What has a value and no sign are digits, one at least. -/
theorem digits_of_isSome {base n : Nat} {cs : List Char} (hsign : '+' ∉ cs)
    (h : digits? base cs = some n) : cs ≠ [] ∧ ∀ c ∈ cs, (digit? base c).isSome := by
  rw [digits?, unsigned_eq_self hsign] at h
  split at h
  · cases h
  · next hne => exact ⟨by simpa using hne, digits_of_foldlM h⟩

/-- How an integer of a base is written, with its suffix. -/
inductive Written : Base → List Char → Prop where
  | decimal {digits suffix : List Char} (hdigits : ∀ c ∈ digits, Lexer.isDigitOrGap c = true)
      (hsuffix : ∀ c ∈ suffix, isIntSuffix c = true) : Written .decimal (digits ++ suffix)
  | hexadecimal {gaps digits suffix : List Char} {mark : Char} (hgaps : ∀ c ∈ gaps, c = '_')
      (hmark : mark = 'x' ∨ mark = 'X')
      (hdigits : ∀ c ∈ digits, (Lexer.isHexDigit c || c == '_') = true)
      (hsuffix : ∀ c ∈ suffix, isIntSuffix c = true) :
      Written .hexadecimal ('0' :: (gaps ++ mark :: (digits ++ suffix)))
  | binary {gaps digits : List Char} {mark : Char} (hgaps : ∀ c ∈ gaps, c = '_')
      (hmark : mark = 'b' ∨ mark = 'B') (hdigits : ∃ c ∈ digits, c.isDigit = true) :
      Written .binary ('0' :: (gaps ++ mark :: digits))

theorem toList_eq (text : String) : ∃ suffix, text.toList = unsuffixed text ++ suffix ∧
    ∀ c ∈ suffix, isIntSuffix c = true := by
  refine ⟨(text.toList.reverse.takeWhile isIntSuffix).reverse, ?_, fun c hc => ?_⟩
  · rw [unsuffixed, ← List.reverse_append, List.takeWhile_append_dropWhile, List.reverse_reverse]
  · exact List.mem_takeWhile_imp (List.mem_reverse.1 hc)

/-- The mark behind a first digit, with underscores between them. -/
theorem exists_marked {body ds : List Char} {mark : Char}
    (hstart : ∀ c ∈ body.head?, c.isDigit = true) (h : body.filter (· != '_') = '0' :: mark :: ds) :
    ∃ gaps digits, body = '0' :: (gaps ++ mark :: digits) ∧ (∀ c ∈ gaps, c = '_') ∧
      digits.filter (· != '_') = ds := by
  cases body with
  | nil => cases h
  | cons c body =>
      have hc : (c != '_') = true := by
        rw [bne_iff_ne]
        rintro rfl
        exact absurd (hstart '_' rfl) (by decide)
      rw [List.filter_cons_of_pos (p := (· != '_')) hc] at h
      obtain ⟨rfl, hrest⟩ := List.cons.inj h
      obtain ⟨gaps, digits, rfl, hgaps, -, hdigits⟩ := List.filter_eq_cons_iff.1 hrest
      exact ⟨gaps, digits, rfl, fun c hc => by simpa using hgaps c hc, hdigits⟩

/-- What holds of the digits holds of all but the underscores. -/
theorem or_gap_of_filter {p : Char → Bool} {cs ds : List Char} (h : cs.filter (· != '_') = ds)
    (hp : ∀ c ∈ ds, p c = true) : ∀ c ∈ cs, (p c || c == '_') = true := by
  intro c hc
  by_cases hgap : c = '_'
  · simp [hgap]
  · have hmem : c ∈ ds := h ▸ List.mem_filter.2 ⟨hc, by simpa using hgap⟩
    simp [hp c hmem]

/-- **What is read as an integer is written as one**, if it has no sign. -/
theorem written_of_readInt {text : String} {v : Int64}
    (hstart : ∀ c ∈ text.toList.head?, c.isDigit = true) (hsign : '+' ∉ text.toList)
    (h : readInt? text = some v) : Written (baseOf text) text.toList := by
  rw [readInt_eq, baseOf] at h
  obtain ⟨n, hn, -⟩ := Option.bind_eq_some_iff.1 h
  obtain ⟨suffix, htext, hsuffix⟩ := toList_eq text
  have hbody : ∀ c ∈ (unsuffixed text).head?, c.isDigit = true := fun c hc =>
    hstart c (by rw [htext, List.head?_append, hc]; rfl)
  have hunsigned : '+' ∉ (unsuffixed text).filter (· != '_') := fun hmem =>
    hsign (htext ▸ List.mem_append_left suffix (List.mem_filter.1 hmem).1)
  have hbehind {mark : Char} {cs : List Char}
      (hmarked : (unsuffixed text).filter (· != '_') = '0' :: mark :: cs) : '+' ∉ cs := fun hmem =>
    hunsigned (hmarked ▸ List.mem_cons_of_mem _ (List.mem_cons_of_mem _ hmem))
  rw [baseOf, htext]
  rcases unmark_cases ((unsuffixed text).filter (· != '_')) with
    ⟨mark, cs, hmarked, hmark, hbase⟩ | ⟨mark, cs, hmarked, hmark, hbase⟩ | hbase
  · rw [hbase] at hn ⊢
    obtain ⟨gaps, digits, hsplit, hgaps, hdigits⟩ := exists_marked hbody hmarked
    obtain ⟨-, hvalue⟩ := digits_of_isSome (hbehind hmarked) hn
    have hall := or_gap_of_filter hdigits fun c hc => isHexDigit_of_digit (hvalue c hc)
    have hwritten := Written.hexadecimal hgaps hmark hall hsuffix
    rw [hsplit]
    simpa using hwritten
  · rw [hbase] at hn ⊢
    obtain ⟨gaps, digits, hsplit, hgaps, hdigits⟩ := exists_marked hbody hmarked
    obtain ⟨hne, hvalue⟩ := digits_of_isSome (hbehind hmarked) hn
    obtain ⟨c, hc⟩ := List.exists_mem_of_ne_nil cs hne
    have hmem : ∃ d ∈ digits ++ suffix, d.isDigit = true :=
      ⟨c, List.mem_append_left _ (List.mem_filter.1 (hdigits ▸ hc)).1,
        isDigit_of_digit 2 (by decide) (hvalue c hc)⟩
    have hwritten := Written.binary hgaps hmark hmem
    rw [hsplit]
    simpa using hwritten
  · rw [hbase] at hn ⊢
    obtain ⟨-, hvalue⟩ := digits_of_isSome hunsigned hn
    exact .decimal (or_gap_of_filter rfl fun c hc => isDigit_of_digit 10 (by decide) (hvalue c hc))
      hsuffix

end Constant

namespace Lexer

/-! ## What is cut -/

variable {whole rest : List Char}

/-- The letters of a suffix: none is part of a number before it, none makes it real. -/
theorem suffix_letter {c : Char} (h : Constant.isIntSuffix c = true) :
    (c.isAlpha = true ∧ isRealSuffix c = false) ∧ isDigitOrGap c = false ∧
      (isHexDigit c || c == '_') = false ∧ c ∉ ['.', 'e', 'E', 'x', 'X'] := by
  have hcases : ((c = 'u' ∨ c = 'U') ∨ c = 'l') ∨ c = 'L' := by
    simpa [Constant.isIntSuffix] using h
  rcases hcases with ((rfl | rfl) | rfl) | rfl <;> decide

theorem takeWhile_front {p : Char → Bool} (hwhole : ∀ c ∈ whole, p c = true)
    (hrest : ∀ c ∈ rest.head?, p c = false) : (whole ++ rest).takeWhile p = whole := by
  rw [List.takeWhile_append_of_pos hwhole]
  cases rest with
  | nil => exact List.append_nil _
  | cons c rest => rw [List.takeWhile_cons_of_neg (by simp [hrest c rfl]), List.append_nil]

theorem dropWhile_front {p : Char → Bool} (hwhole : ∀ c ∈ whole, p c = true)
    (hrest : ∀ c ∈ rest.head?, p c = false) : (whole ++ rest).dropWhile p = rest := by
  rw [List.dropWhile_append_of_pos hwhole]
  cases rest with
  | nil => rfl
  | cons c rest => rw [List.dropWhile_cons_of_neg (by simp [hrest c rfl])]

/-- **A number without a mark**: digits and underscores, and the letters behind them. -/
theorem scanNumber_append (hhex : startsHex (whole ++ rest) = false)
    (hwhole : ∀ c ∈ whole, isDigitOrGap c = true)
    (hrest : ∀ c ∈ rest.head?, isDigitOrGap c = false ∧ c ≠ '.' ∧ c ≠ 'e' ∧ c ≠ 'E') :
    scanNumber (whole ++ rest) =
      ⟨if (rest.takeWhile Char.isAlpha).any isRealSuffix then .realLiteral else .intLiteral,
        whole ++ rest.takeWhile Char.isAlpha, none⟩ := by
  have hdigits : (whole ++ rest).takeWhile isDigitOrGap = whole :=
    takeWhile_front hwhole fun c hc => (hrest c hc).1
  have hfraction : scanFraction rest = [] := by
    cases rest with
    | nil => rfl
    | cons c rest =>
        unfold scanFraction
        split
        · next heq => exact absurd (List.cons.inj heq).1 (hrest c rfl).2.1
        · rfl
  have hexponent : scanExponent rest = [] := by
    cases rest with
    | nil => rfl
    | cons c rest => simp [scanExponent, (hrest c rfl).2.2.1, (hrest c rfl).2.2.2]
  rw [scanNumber, if_neg (by rw [hhex]; exact Bool.false_ne_true)]
  simp [hdigits, hfraction, hexponent]

/-- Such a number is a whole integer if and only if there are only letters behind the digits, and none
that makes it a real number. -/
theorem scanNumber_whole_iff (hhex : startsHex (whole ++ rest) = false)
    (hwhole : ∀ c ∈ whole, isDigitOrGap c = true)
    (hrest : ∀ c ∈ rest.head?, isDigitOrGap c = false ∧ c ≠ '.' ∧ c ≠ 'e' ∧ c ≠ 'E') :
    (scanNumber (whole ++ rest)).kind = .intLiteral ∧
        (scanNumber (whole ++ rest)).chars = whole ++ rest ↔
      ∀ c ∈ rest, c.isAlpha = true ∧ isRealSuffix c = false := by
  rw [scanNumber_append hhex hwhole hrest]
  dsimp only
  rw [List.append_cancel_left_eq, List.takeWhile_eq_self_iff]
  constructor
  · rintro ⟨hkind, halpha⟩ c hc
    rw [List.takeWhile_eq_self_iff.2 halpha] at hkind
    refine ⟨halpha c hc, Bool.eq_false_iff.2 fun hreal => ?_⟩
    rw [if_pos (List.any_eq_true.2 ⟨c, hc, hreal⟩)] at hkind
    cases hkind
  · intro h
    have halpha : ∀ c ∈ rest, c.isAlpha = true := fun c hc => (h c hc).1
    refine ⟨?_, halpha⟩
    rw [List.takeWhile_eq_self_iff.2 halpha, if_neg]
    intro hreal
    obtain ⟨c, hc, hreal⟩ := List.any_eq_true.1 hreal
    rw [(h c hc).2] at hreal
    cases hreal

/-- **A number with the mark right behind its zero** is a whole integer with its suffix. -/
theorem scanNumber_hex {mark : Char} {digits suffix : List Char} (hmark : mark = 'x' ∨ mark = 'X')
    (hdigits : ∀ c ∈ digits, (isHexDigit c || c == '_') = true)
    (hsuffix : ∀ c ∈ suffix, Constant.isIntSuffix c = true) :
    scanNumber ('0' :: mark :: (digits ++ suffix)) =
      ⟨.intLiteral, '0' :: mark :: (digits ++ suffix), none⟩ := by
  have hhex : startsHex ('0' :: mark :: (digits ++ suffix)) = true := by
    rcases hmark with rfl | rfl <;> rfl
  have htaken : (digits ++ suffix).takeWhile (fun c => isHexDigit c || c == '_') = digits :=
    takeWhile_front hdigits fun c hc => (suffix_letter (hsuffix c (List.mem_of_mem_head? hc))).2.2.1
  have hletters : suffix.takeWhile Char.isAlpha = suffix :=
    List.takeWhile_eq_self_iff.2 fun c hc => (suffix_letter (hsuffix c hc)).1.1
  have hdrop : ('0' :: mark :: (digits ++ suffix)).drop (2 + digits.length) = suffix := by
    rw [Nat.add_comm]
    exact List.drop_left
  rw [scanNumber, if_pos hhex]
  simp [htaken, hdrop, hletters]

/-- When a text is one token. -/
theorem lex_single_iff {text : String} {k : Kind} {c : Char} {cs : List Char}
    (h : text.toList = c :: cs) :
    (lex text).1 = [⟨k, text, 0⟩, ⟨.endOfFile, "", text.utf8ByteSize⟩] ↔
      (lexeme true c cs).kind = k ∧ (lexeme true c cs).chars = c :: cs := by
  constructor
  · intro htokens
    have hcuts := cuts_lex text
    rw [htokens, h] at hcuts
    generalize (lex text).2 = es at hcuts
    cases hcuts with
    | token place kind chars rest tail => exact ⟨kind.symm, chars.symm.trans h⟩
  · rintro ⟨hkind, hchars⟩
    have hall : text.toList ++ [] = c :: cs := (List.append_nil _).trans h
    have hcuts := Cuts.token (t := ⟨k, text, 0⟩) rfl hkind.symm (h.trans hchars.symm) hall (.done _ _)
    have hlex := hcuts.lexFrom_eq (Nat.le_refl _)
    rw [← h] at hlex
    have hstop : (⟨k, text, 0⟩ : Token).span.stop = text.utf8ByteSize := Nat.zero_add _
    rw [hstop] at hlex
    exact congrArg Prod.fst hlex

end Lexer

open Constant Lexer

/-- **Is a literal that has a value one token?**  A decimal one is.  A hexadecimal one is if its mark
stands right behind the zero; with underscores between them, if there are only letters from the mark on,
and none that makes a number real.  A binary one is not. -/
def OneToken (base : Base) (cs : List Char) : Prop :=
  match base with
  | .decimal => True
  | .hexadecimal => startsHex cs = true ∨
      ∀ c ∈ cs.dropWhile isDigitOrGap, c.isAlpha = true ∧ isRealSuffix c = false
  | .binary => False

theorem isAlpha_of_isDigit {c : Char} (h : c.isDigit = true) : c.isAlpha = false := by
  have hrange : 48 ≤ c.toNat ∧ c.toNat ≤ 57 := by
    simpa [Char.isDigit, UInt32.le_iff_toNat_le] using h
  rw [← Bool.not_eq_true, isAlpha_iff]
  omega

/-- **What is written as an integer is cut as a whole one** if and only if it is one token. -/
theorem scanNumber_written {base : Base} {cs : List Char} (h : Written base cs) :
    (scanNumber cs).kind = .intLiteral ∧ (scanNumber cs).chars = cs ↔ OneToken base cs := by
  -- a mark ends the digits before it
  have hends {mark : Char} (hmark : mark ∈ ['x', 'X', 'b', 'B']) (cs : List Char) :
      ∀ c ∈ (mark :: cs).head?, isDigitOrGap c = false ∧ c ≠ '.' ∧ c ≠ 'e' ∧ c ≠ 'E' := by
    intro c hc
    obtain rfl : mark = c := Option.some.inj hc
    simp only [List.mem_cons, List.not_mem_nil, or_false] at hmark
    rcases hmark with rfl | rfl | rfl | rfl <;> decide
  have hzero {gaps : List Char} (hgaps : ∀ c ∈ gaps, c = '_') :
      ∀ c ∈ '0' :: gaps, isDigitOrGap c = true := by
    refine List.forall_mem_cons.2 ⟨rfl, fun c hc => ?_⟩
    rw [hgaps c hc]
    rfl
  cases h with
  | @decimal digits suffix hdigits hsuffix =>
      refine iff_of_true ((scanNumber_whole_iff ?_ hdigits fun c hc => ?_).2 fun c hc => ?_) trivial
      · refine not_startsHex fun c hc => ?_
        rcases List.mem_append.1 hc with hc | hc
        · constructor
          all_goals
            rintro rfl
            exact absurd (hdigits _ hc) (by decide)
        · have hnot := (suffix_letter (hsuffix c hc)).2.2.2
          simp only [List.mem_cons, not_or] at hnot
          exact ⟨hnot.2.2.2.1, hnot.2.2.2.2.1⟩
      · obtain ⟨-, hdigit, -, hnot⟩ := suffix_letter (hsuffix c (List.mem_of_mem_head? hc))
        simp only [List.mem_cons, not_or] at hnot
        exact ⟨hdigit, hnot.1, hnot.2.1, hnot.2.2.1⟩
      · exact (suffix_letter (hsuffix c hc)).1
  | @hexadecimal gaps digits suffix mark hgaps hmark hdigits hsuffix =>
      have hmem : mark ∈ ['x', 'X', 'b', 'B'] := by rcases hmark with rfl | rfl <;> decide
      cases gaps with
      | nil =>
          refine iff_of_true ?_ (Or.inl ?_)
          · rw [List.nil_append, scanNumber_hex hmark hdigits hsuffix]
            exact ⟨rfl, rfl⟩
          · rcases hmark with rfl | rfl <;> rfl
      | cons gap gaps =>
          obtain rfl : gap = '_' := hgaps gap List.mem_cons_self
          have hhex : startsHex ('0' :: '_' :: gaps ++ mark :: (digits ++ suffix)) = false := rfl
          have hrest := dropWhile_front (hzero hgaps) fun c hc => (hends hmem (digits ++ suffix) c hc).1
          have hwhole := scanNumber_whole_iff hhex (hzero hgaps) (hends hmem (digits ++ suffix))
          refine hwhole.trans ⟨fun h => Or.inr ?_, fun h => h.elim nofun fun h => ?_⟩
          · exact hrest.symm ▸ h
          · exact hrest ▸ h
  | @binary gaps digits mark hgaps hmark hdigits =>
      have hmem : mark ∈ ['x', 'X', 'b', 'B'] := by rcases hmark with rfl | rfl <;> decide
      have hhex : startsHex ('0' :: gaps ++ mark :: digits) = false := by
        cases gaps with
        | nil => rcases hmark with rfl | rfl <;> rfl
        | cons gap gaps =>
            obtain rfl : gap = '_' := hgaps gap List.mem_cons_self
            rfl
      refine iff_of_false (fun h => ?_) id
      obtain ⟨c, hc, hdigit⟩ := hdigits
      have halpha := ((scanNumber_whole_iff hhex (hzero hgaps) (hends hmem digits)).1 h c
        (List.mem_cons_of_mem _ hc)).1
      rw [isAlpha_of_isDigit hdigit] at halpha
      cases halpha

/-- **Literals of integers.**  A text of letters, digits and underscores that starts with a digit and
has the value of an integer is cut as one whole number if and only if it is a literal that is one
token. -/
theorem lex_literal_iff (text : String) (v : Int64)
    (hchars : ∀ c ∈ text.toList, c.isAlphanum = true ∨ c = '_')
    (hstart : ∃ c ∈ text.toList.head?, c.isDigit = true) (h : readInt? text = some v) :
    (lex text).1 = [⟨.intLiteral, text, 0⟩, ⟨.endOfFile, "", text.utf8ByteSize⟩] ↔
      OneToken (baseOf text) text.toList := by
  obtain ⟨c, hc, hdigit⟩ := hstart
  obtain ⟨cs, htext⟩ := List.head?_eq_some_iff.1 hc
  have hsign : '+' ∉ text.toList := fun hmem => absurd (hchars '+' hmem) (by decide)
  have hwritten := written_of_readInt (fun d hd => Option.some.inj (hc.symm.trans hd) ▸ hdigit) hsign h
  rw [lex_single_iff htext, lexeme_of_isDigit hdigit, ← htext]
  exact scanNumber_written hwritten

/-- A hexadecimal literal with an underscore and a suffix. -/
theorem lex_literal_iff_hex :
    (∀ c ∈ "0x1_Fu".toList, c.isAlphanum = true ∨ c = '_') ∧
      (∃ c ∈ "0x1_Fu".toList.head?, c.isDigit = true) ∧ readInt? "0x1_Fu" = some 31 ∧
      ((lex "0x1_Fu").1 = [⟨.intLiteral, "0x1_Fu", 0⟩, ⟨.endOfFile, "", "0x1_Fu".utf8ByteSize⟩] ↔
        OneToken (baseOf "0x1_Fu") "0x1_Fu".toList) :=
  have hall : "0x1_Fu".toList.all (fun c => c.isAlphanum || c == '_') = true := by decide
  have hchars : ∀ c ∈ "0x1_Fu".toList, c.isAlphanum = true ∨ c = '_' := fun c hc => by
    simpa using List.all_eq_true.1 hall c hc
  have hstart : ∃ c ∈ "0x1_Fu".toList.head?, c.isDigit = true := ⟨'0', rfl, rfl⟩
  have hvalue : readInt? "0x1_Fu" = some 31 := by decide +kernel
  ⟨hchars, hstart, hvalue, lex_literal_iff "0x1_Fu" 31 hchars hstart hvalue⟩

/-- There are literals with a value that are two tokens: binary ones, and hexadecimal ones with an
underscore before the mark. -/
theorem not_lex_literal :
    (readInt? "0b1010" = some 10 ∧ (lex "0b1010").1 =
      [⟨.intLiteral, "0b", 0⟩, ⟨.intLiteral, "1010", 2⟩, ⟨.endOfFile, "", 6⟩]) ∧
    readInt? "0_x1F" = some 31 ∧ (lex "0_x1F").1 =
      [⟨.intLiteral, "0_x", 0⟩, ⟨.realLiteral, "1F", 3⟩, ⟨.endOfFile, "", 5⟩] := by
  decide +kernel

end CodeMend

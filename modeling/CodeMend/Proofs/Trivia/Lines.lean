import CodeMend.Edit.Indent
import CodeMend.Proofs.Lexer.Seams
import CodeMend.Proofs.Trivia.Tight
import Mathlib.Data.List.Chain

/-!
# Lines

`linesOf` cuts a list behind each line break, in one way only (`linesOf_flatten`).  A line of stored
tokens is its white space and its body; the lexer cuts white space whole, so a line starts with at
most one token of it (`lex_spaced`).

The lines that the formatter looks at are those with a word or a comment: `Line.all` reads them off
the lines of a tree one by one (`Line.all_eq`).
-/

namespace CodeMend

section Cutting

variable {α β : Type} {ends : α → Bool}

/-- A list cut behind each element that ends a line. -/
def linesOf (ends : α → Bool) : List α → List (List α)
  | [] => []
  | a :: as =>
    if ends a then [a] :: linesOf ends as
    else match linesOf ends as with
      | [] => [[a]]
      | l :: ls => (a :: l) :: ls

/-- Lines in a row: each ends where it should and not before, and only the last one may lack its
end. -/
inductive Lines (ends : α → Bool) : List (List α) → Prop
  | nil : Lines ends []
  | last {l : List α} (ne : l ≠ []) (inner : ∀ a ∈ l, ends a = false) : Lines ends [l]
  | cons {front : List α} {a : α} {ls : List (List α)} (inner : ∀ b ∈ front, ends b = false)
      (stop : ends a = true) (rest : Lines ends ls) : Lines ends ((front ++ [a]) :: ls)

/-- An element that ends no line may be put in front of the first line. -/
theorem Lines.extend {a : α} {l : List α} {ls : List (List α)} (ha : ends a = false)
    (h : Lines ends (l :: ls)) : Lines ends ((a :: l) :: ls) := by
  generalize hall : l :: ls = all at h
  cases h with
  | nil => cases hall
  | last ne inner =>
      cases hall
      exact .last (List.cons_ne_nil _ _) (List.forall_mem_cons.2 ⟨ha, inner⟩)
  | @cons front b ls inner stop rest =>
      cases hall
      have hinner : ∀ c ∈ a :: front, ends c = false := List.forall_mem_cons.2 ⟨ha, inner⟩
      exact .cons hinner stop rest

/-- No line is empty. -/
theorem Lines.ne_nil {ls : List (List α)} (h : Lines ends ls) : ∀ l ∈ ls, l ≠ [] := by
  induction h with
  | nil => exact fun l hl => absurd hl List.not_mem_nil
  | last ne inner => exact List.forall_mem_singleton.2 ne
  | cons inner stop rest ih =>
      exact List.forall_mem_cons.2 ⟨List.append_ne_nil_of_right_ne_nil _ (List.cons_ne_nil _ _), ih⟩

/-- Cutting gives lines. -/
theorem lines_linesOf (as : List α) : Lines ends (linesOf ends as) := by
  induction as with
  | nil => exact .nil
  | cons a as ih =>
      rw [linesOf]
      cases ha : ends a with
      | true =>
          have hinner : ∀ c ∈ ([] : List α), ends c = false := fun _ h => absurd h List.not_mem_nil
          exact .cons hinner ha ih
      | false =>
          rw [if_neg Bool.false_ne_true]
          cases hls : linesOf ends as with
          | nil => exact .last (List.cons_ne_nil _ _) (by simpa using ha)
          | cons l ls =>
              rw [hls] at ih
              exact ih.extend ha

/-- The lines together are the list. -/
theorem flatten_linesOf (as : List α) : (linesOf ends as).flatten = as := by
  induction as with
  | nil => rfl
  | cons a as ih =>
      rw [linesOf]
      split
      · rw [List.flatten_cons, ih]
        rfl
      · cases hls : linesOf ends as with
        | nil =>
            rw [hls] at ih
            simp [← ih]
        | cons l ls =>
            rw [hls] at ih
            simpa using ih

/-- What has no end is one line. -/
theorem linesOf_last {l : List α} (ne : l ≠ []) (inner : ∀ a ∈ l, ends a = false) :
    linesOf ends l = [l] := by
  induction l with
  | nil => exact absurd rfl ne
  | cons a l ih =>
      obtain ⟨ha, inner⟩ := List.forall_mem_cons.1 inner
      rw [linesOf, ha, if_neg Bool.false_ne_true]
      cases l with
      | nil => rfl
      | cons b l => rw [ih (List.cons_ne_nil _ _) inner]

/-- The first line is cut behind its end. -/
theorem linesOf_cons {front : List α} {a : α} (inner : ∀ b ∈ front, ends b = false)
    (stop : ends a = true) (rest : List α) :
    linesOf ends ((front ++ [a]) ++ rest) = (front ++ [a]) :: linesOf ends rest := by
  induction front with
  | nil => simp [linesOf, stop]
  | cons b front ih =>
      obtain ⟨hb, inner⟩ := List.forall_mem_cons.1 inner
      rw [List.cons_append, List.cons_append, linesOf, hb, if_neg Bool.false_ne_true, ih inner]

/-- **Lines are cut in one way only.** -/
theorem linesOf_flatten {ls : List (List α)} (h : Lines ends ls) : linesOf ends ls.flatten = ls := by
  induction h with
  | nil => rfl
  | last ne inner => simpa using linesOf_last ne inner
  | cons inner stop rest ih => rw [List.flatten_cons, linesOf_cons inner stop, ih]

/-- Images are cut as the elements are, if the same of them end lines. -/
theorem linesOf_map {ends' : β → Bool} {g : α → β} (h : ∀ a, ends' (g a) = ends a) (as : List α) :
    linesOf ends' (as.map g) = (linesOf ends as).map (List.map g) := by
  induction as with
  | nil => rfl
  | cons a as ih =>
      rw [List.map_cons, linesOf, linesOf, h, ih]
      split
      · rfl
      · cases linesOf ends as <;> rfl

end Cutting

open Tree

/-! ## Lines of tokens -/

/-- Does a stored token end a line? -/
def endsLine (x : Kind × String) : Bool := x.1 == .newline

/-- Is a stored token white space? -/
def isIndent (x : Kind × String) : Bool := x.1 == .whitespace

/-- The white space that a line starts with. -/
def indentOf (line : Stored) : Stored := line.takeWhile isIndent

/-- A line without the white space that it starts with. -/
def bodyOf (line : Stored) : Stored := line.dropWhile isIndent

/-- A line is its white space and its body. -/
theorem indentOf_append_bodyOf (line : Stored) : indentOf line ++ bodyOf line = line :=
  List.takeWhile_append_dropWhile

/-- White space does not follow white space. -/
def Spaced (xs : Stored) : Prop := xs.IsChain (fun x y => isIndent x = true → isIndent y = false)

/-- A line that starts with at most one token of white space. -/
def Trim (line : Stored) : Prop :=
  ∀ x y rest, line = x :: y :: rest → isIndent x = true → isIndent y = false

/-- Where white space does not follow white space, a line starts with at most one token of it.
-/
theorem Spaced.trim {line : Stored} (h : Spaced line) : Trim line := by
  rintro x y rest rfl hx
  exact (List.isChain_cons.1 h).1 y rfl hx

/-- A line of white space and what starts with something else is taken apart there. -/
theorem indentOf_append {xs : Stored} (hxs : ∀ y ∈ xs, y.1 = .whitespace) {x : Kind × String}
    (hx : x.1 ≠ .whitespace) (back : Stored) :
    indentOf (xs ++ x :: back) = xs ∧ bodyOf (xs ++ x :: back) = x :: back := by
  have hall : ∀ y ∈ xs, isIndent y = true := fun y hy => by simp [isIndent, hxs y hy]
  have hstop : isIndent x = false := by simpa [isIndent] using hx
  constructor
  · rw [indentOf, List.takeWhile_append_of_pos hall, List.takeWhile_cons_of_neg (by simp [hstop]),
      List.append_nil]
  · rw [bodyOf, List.dropWhile_append_of_pos hall, List.dropWhile_cons_of_neg (by simp [hstop])]

namespace Lexer

open Text

/-- A first token of white space shows that the text starts with a blank. -/
theorem lexFrom_head (fuel : Nat) (lineStart : Bool) (start : Nat) (cs : List Char) :
    ∀ t ∈ (lexFrom fuel lineStart start cs).1.head?, t.kind = .whitespace →
      ∃ c rest, cs = c :: rest ∧ (isBlank c && !isLineBreak c) = true := by
  intro t ht hkind
  cases fuel with
  | zero =>
      obtain rfl := Option.some.inj ht
      cases hkind
  | succ fuel =>
      cases cs with
      | nil =>
          obtain rfl := Option.some.inj ht
          cases hkind
      | cons c cs =>
          obtain rfl := Option.some.inj ht
          exact ⟨c, cs, rfl, (lexeme_wholeSpace lineStart c cs hkind).1⟩

/-- White space is cut whole, so what follows it starts with no blank, by induction on the
tokens. -/
theorem lexFrom_spaced (fuel : Nat) (lineStart : Bool) (start : Nat) (cs : List Char) :
    (lexFrom fuel lineStart start cs).1.IsChain
      (fun t u => t.kind = .whitespace → u.kind ≠ .whitespace) := by
  induction fuel generalizing lineStart start cs with
  | zero => exact List.isChain_singleton _
  | succ fuel ih =>
      cases cs with
      | nil => exact List.isChain_singleton _
      | cons c cs =>
          refine List.isChain_cons.2 ⟨fun u hu hkind huspace => ?_, ih _ _ _⟩
          have hwhole := (lexeme_wholeSpace lineStart c cs hkind).2
          obtain ⟨d, rest, hrest, hd⟩ := lexFrom_head _ _ _ _ u hu huspace
          -- what follows the longest stretch of white space is none
          have hbehind : (c :: cs).drop ((c :: cs).takeWhile
              (fun d => isBlank d && !isLineBreak d)).length =
              (c :: cs).dropWhile (fun d => isBlank d && !isLineBreak d) := by
            nth_rewrite 2 [← List.takeWhile_append_dropWhile
              (p := fun d => isBlank d && !isLineBreak d) (l := c :: cs)]
            exact List.drop_left
          have hstop := List.head?_dropWhile_not (fun d => isBlank d && !isLineBreak d) (c :: cs)
          rw [← hbehind, ← hwhole, hrest] at hstop
          simp [hd] at hstop

end Lexer

/-- **White space does not follow white space** in a text. -/
theorem lex_spaced (text : String) : Spaced ((lex text).1.map Token.stored) := by
  rw [Spaced, List.isChain_map]
  refine (Lexer.lexFrom_spaced text.toList.length true 0 text.toList).imp fun {t u} h ht => ?_
  simpa [isIndent, Token.stored] using h (by simpa [isIndent, Token.stored] using ht)

/-! ## Lines of a tree -/

/-- Does a token end a line? -/
def Site.endsLine (s : Site) : Bool := s.kind == .newline

namespace Line

variable {front rest l : List Site} {a : Site}

/-- Does a token that stands first behind the white space make no line to look at? -/
def isPassed (k : Kind) : Bool := k == .newline || k == .endOfFile || k.isDirective

/-- The line that tokens make behind the given white space. -/
def first? (indent : Option Site) : List Site → Option Line
  | [] => none
  | t :: _ => if isPassed t.kind then none else some ⟨indent, t⟩

/-- The line that tokens make, if it has a word or a comment. -/
def of? : List Site → Option Line
  | [] => none
  | t :: ts => if t.kind == .whitespace then first? (some t) ts else first? none (t :: ts)

/-- Behind the first token of a line the scan runs up to its end. -/
theorem scan_false_line (inner : ∀ b ∈ front, b.endsLine = false) (stop : a.endsLine = true)
    (indent : Option Site) (rest : List Site) :
    scan false indent ((front ++ [a]) ++ rest) = scan true none rest := by
  induction front generalizing indent with
  | nil =>
      have stop : (a.kind == .newline) = true := stop
      simp [scan, stop]
  | cons b front ih =>
      obtain ⟨hb, inner⟩ := List.forall_mem_cons.1 inner
      have hb : (b.kind == .newline) = false := hb
      simpa [scan, hb] using ih inner none

/-- Behind the first token of the last line nothing more is found. -/
theorem scan_false_last (inner : ∀ b ∈ l, b.endsLine = false) (indent : Option Site) :
    scan false indent l = [] := by
  induction l generalizing indent with
  | nil => rfl
  | cons b l ih =>
      obtain ⟨hb, inner⟩ := List.forall_mem_cons.1 inner
      have hb : (b.kind == .newline) = false := hb
      simpa [scan, hb] using ih inner none

/-- The first token behind the white space decides about the line. -/
theorem scan_first {indent : Option Site} {t : Site} (ht : (t.kind == .whitespace && indent.isNone) = false)
    (hline : t.endsLine = false) (ts : List Site) :
    scan true indent (t :: ts) = (first? indent (t :: ts)).toList ++ scan false none ts := by
  have hline : (t.kind == .newline) = false := hline
  rw [scan, ht, hline, first?, isPassed, hline, Bool.false_or]
  simp only [Bool.false_eq_true, if_false]
  split <;> rfl

/-- A line break where a line could start makes no line to look at. -/
theorem scan_break (indent : Option Site) {t : Site} (ht : t.endsLine = true) (ts : List Site) :
    scan true indent (t :: ts) = scan true none ts ∧ first? indent (t :: ts) = none := by
  have hkind : t.kind = .newline := beq_iff_eq.1 ht
  constructor
  · rw [scan, hkind]
    rfl
  · rw [first?, isPassed, hkind]
    rfl

/-- A line is read behind its white space. -/
theorem scan_indented {indent : Option Site}
    (hfirst : ∀ t ∈ (front ++ [a]).head?, (t.kind == .whitespace && indent.isNone) = false)
    (inner : ∀ b ∈ front, b.endsLine = false) (stop : a.endsLine = true) (rest : List Site) :
    scan true indent ((front ++ [a]) ++ rest) =
      (first? indent (front ++ [a])).toList ++ scan true none rest := by
  cases front with
  | nil =>
      rw [List.nil_append, (scan_break indent stop []).2]
      exact (scan_break indent stop rest).1
  | cons b front =>
      obtain ⟨hb, inner⟩ := List.forall_mem_cons.1 inner
      rw [List.cons_append, List.cons_append, scan_first (hfirst b rfl) hb,
        scan_false_line inner stop]
      rfl

/-- A line that ends is read by itself. -/
theorem scan_line (inner : ∀ b ∈ front, b.endsLine = false) (stop : a.endsLine = true)
    (rest : List Site) :
    scan true none ((front ++ [a]) ++ rest) =
      (of? (front ++ [a])).toList ++ scan true none rest := by
  cases front with
  | nil =>
      have hkind : a.kind = .newline := beq_iff_eq.1 stop
      rw [scan_indented (fun t ht => ?_) inner stop]
      · rw [List.nil_append, of?, hkind]
        rfl
      · obtain rfl := Option.some.inj ht
        rw [hkind]
        rfl
  | cons b front =>
      rw [List.cons_append, of?]
      cases hb : b.kind == .whitespace with
      | true =>
          rw [if_pos rfl, ← scan_indented (fun t _ => Bool.and_false _)
            (List.forall_mem_cons.1 inner).2 stop]
          simp [scan, hb]
      | false =>
          rw [if_neg Bool.false_ne_true, ← List.cons_append, scan_indented (fun t ht => ?_) inner stop]
          obtain rfl := Option.some.inj ht
          rw [hb]
          rfl

/-- The last line is read by itself. -/
theorem scan_last (inner : ∀ b ∈ l, b.endsLine = false) : scan true none l = (of? l).toList := by
  have hfirst {indent : Option Site} {l : List Site} (inner : ∀ b ∈ l, b.endsLine = false)
      (h : ∀ t ∈ l.head?, (t.kind == .whitespace && indent.isNone) = false) :
      scan true indent l = (first? indent l).toList := by
    cases l with
    | nil => rfl
    | cons t ts =>
        obtain ⟨ht, inner⟩ := List.forall_mem_cons.1 inner
        rw [scan_first (h t rfl) ht, scan_false_last inner, List.append_nil]
  cases l with
  | nil => rfl
  | cons t ts =>
      rw [of?]
      cases ht : t.kind == .whitespace with
      | true =>
          rw [if_pos rfl, ← hfirst (List.forall_mem_cons.1 inner).2 fun _ _ => Bool.and_false _]
          simp [scan, ht]
      | false =>
          rw [if_neg Bool.false_ne_true, hfirst inner fun u hu => ?_]
          obtain rfl := Option.some.inj hu
          rw [ht]
          rfl

/-- Lines in a row are read one by one, by induction on the lines. -/
theorem scan_lines {ls : List (List Site)} (h : Lines Site.endsLine ls) :
    scan true none ls.flatten = ls.filterMap of? := by
  induction h with
  | nil => rfl
  | last ne inner =>
      rw [List.flatten_singleton, scan_last inner]
      cases hof : of? _ <;> simp [hof]
  | cons inner stop rest ih =>
      rw [List.flatten_cons, scan_line inner stop, ih]
      cases hof : of? _ <;> simp [hof]

/-- **The lines of a tree are read one by one.** -/
theorem all_eq (root : Site) :
    all root = (linesOf Site.endsLine root.subtokens).filterMap of? := by
  rw [all, ← scan_lines (lines_linesOf _), flatten_linesOf]

/-- What a line to look at is made of. -/
theorem of?_eq_some {line : Line} (h : of? l = some line) :
    ∃ rest, l = line.indent.toList ++ line.first :: rest ∧
      (∀ w ∈ line.indent, w.kind = .whitespace) ∧ isPassed line.first.kind = false ∧
      (line.indent = none → line.first.kind ≠ .whitespace) := by
  have hfirst {indent : Option Site} {l : List Site} (h : first? indent l = some line) :
      line.indent = indent ∧ isPassed line.first.kind = false ∧ ∃ rest, l = line.first :: rest := by
    cases l with
    | nil => cases h
    | cons t ts =>
        rw [first?] at h
        split at h
        · cases h
        · next hpassed =>
          obtain rfl := Option.some.inj h
          exact ⟨rfl, Bool.eq_false_iff.2 hpassed, ts, rfl⟩
  cases l with
  | nil => cases h
  | cons t ts =>
      rw [of?] at h
      split at h
      · next ht =>
        obtain ⟨hindent, hpassed, rest, rfl⟩ := hfirst h
        refine ⟨rest, by rw [hindent]; rfl, fun w hw => ?_, hpassed, fun hnone => ?_⟩
        · rw [hindent] at hw
          obtain rfl := Option.some.inj hw
          exact beq_iff_eq.1 ht
        · rw [hindent] at hnone
          cases hnone
      · next ht =>
        obtain ⟨hindent, hpassed, rest, hrest⟩ := hfirst h
        refine ⟨rest, by rw [hindent]; exact hrest, fun w hw => ?_, hpassed, fun _ => ?_⟩
        · rw [hindent] at hw
          cases hw
        · obtain ⟨rfl, -⟩ := List.cons.inj hrest
          simpa using ht

/-- The white space of a line comes first, and what follows it is none. -/
theorem first_ne_whitespace {line : Line} (h : of? l = some line) (htrim : Trim (l.map Site.stored)) :
    line.first.kind ≠ .whitespace := by
  obtain ⟨rest, rfl, hindent, -, hnone⟩ := of?_eq_some h
  cases hline : line.indent with
  | none => exact hnone hline
  | some w =>
      rw [hline] at htrim
      have hkind : isIndent w.stored = true := by
        simp [isIndent, Site.stored, hindent w hline]
      have hnext := htrim w.stored line.first.stored (rest.map Site.stored) rfl hkind
      simpa [isIndent, Site.stored] using hnext

/-- A line split behind its white space. -/
theorem split_of_of? {line : Line} (h : of? l = some line) (htrim : Trim (l.map Site.stored)) :
    indentOf (l.map Site.stored) = line.indent.toList.map Site.stored ∧
      ∃ rest, bodyOf (l.map Site.stored) = line.first.stored :: rest := by
  have hfirst : line.first.stored.1 ≠ .whitespace := first_ne_whitespace h htrim
  obtain ⟨rest, rfl, hindent, -⟩ := of?_eq_some h
  have hkinds : ∀ y ∈ line.indent.toList.map Site.stored, y.1 = .whitespace := by
    intro y hy
    obtain ⟨w, hw, rfl⟩ := List.mem_map.1 hy
    exact hindent w (Option.mem_toList.1 hw)
  have hsplit := indentOf_append hkinds hfirst (rest.map Site.stored)
  rw [List.map_append, List.map_cons]
  exact ⟨hsplit.1, _, hsplit.2⟩

end Line

end CodeMend

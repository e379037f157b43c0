import CodeMend.Proofs.Edit.Stitching
import CodeMend.Proofs.Lexer.Seams
import CodeMend.Proofs.Parser.Insensitive

/-!
# Blank lines come and go

`Respaced` relates tokens to the same tokens with some blank lines dropped and others added, and
lists the splices that do it.  A blank line goes or comes right behind a line break that stays, so

* the new text is cut into the new tokens (`Respaced.lexes`): what is cut before the change ends at
  a line break that is still there;
* the parser sees no difference (`parse_respaced`);
* the splices can be made in any order and give a tree with the new tokens (`Respaced.apply`).
-/

namespace CodeMend

open Tree Lexer

/-- Is a token neither white space nor a line break? -/
def isKept (x : Kind × String) : Bool := x.1 != .whitespace && x.1 != .newline

/-- Blank lines dropped and added, with the splices for it.  The tokens start at the first number.
A line break stays, and behind it white space goes up to another line break, or the line break comes
once more.  No further line break follows. -/
inductive Respaced : Nat → Stored → List Splice → Stored → Prop where
  | nil (here : Nat) : Respaced here [] [] []
  | keep {here : Nat} {x : Kind × String} {xs ys : Stored} {ss : List Splice}
      (rest : Respaced (here + x.2.utf8ByteSize) xs ss ys) : Respaced here (x :: xs) ss (x :: ys)
  | drop {here : Nat} {text last : String} {gone xs ys : Stored} {ss : List Splice}
      (blank : ∀ x ∈ gone, isKept x = false) (ends : gone.getLast? = some (.newline, last))
      (head : ∀ x ∈ xs.head?, x.1 ≠ .newline)
      (rest : Respaced (here + text.utf8ByteSize + widthOf gone) xs ss ys) :
      Respaced here ((.newline, text) :: (gone ++ xs))
        (.delete ⟨here + text.utf8ByteSize, here + text.utf8ByteSize + widthOf gone⟩ :: ss)
        ((.newline, text) :: ys)
  | add {here : Nat} {text : String} {xs ys : Stored} {ss : List Splice}
      (head : ∀ x ∈ xs.head?, x.1 ≠ .newline)
      (rest : Respaced (here + text.utf8ByteSize) xs ss ys) :
      Respaced here ((.newline, text) :: xs)
        (.insert (here + text.utf8ByteSize) ⟨[.token .newline text], []⟩ :: ss)
        ((.newline, text) :: (.newline, text) :: ys)

namespace Respaced

variable {here : Nat} {xs ys : Stored} {ss : List Splice}

/-- Tokens that stay. -/
theorem keepAll (zs : Stored) (h : Respaced (here + widthOf zs) xs ss ys) :
    Respaced here (zs ++ xs) ss (zs ++ ys) := by
  induction zs generalizing here with
  | nil => simpa using h
  | cons z zs ih =>
      refine .keep (ih ?_)
      rwa [widthOf_cons, ← Nat.add_assoc] at h

theorem head?_eq (h : Respaced here xs ss ys) : ys.head? = xs.head? := by
  cases h <;> rfl

theorem filter_isKept_blank {gone : Stored} (h : ∀ x ∈ gone, isKept x = false) :
    gone.filter isKept = [] :=
  List.filter_eq_nil_iff.2 fun x hx => by simp [h x hx]

/-- All but white space and line breaks stays. -/
theorem kept (h : Respaced here xs ss ys) : ys.filter isKept = xs.filter isKept := by
  have hbreak (text : String) : isKept (.newline, text) = false := rfl
  induction h with
  | nil => rfl
  | @keep here x xs ys ss rest ih => rw [List.filter_cons, List.filter_cons, ih]
  | drop blank ends head rest ih => simp [hbreak, filter_isKept_blank blank, ih]
  | add head rest ih => simp [hbreak, ih]

/-! ## The new text is cut into the new tokens -/

theorem lineStartAfter_eq_true {gone : Stored} {last : String} (lineStart : Bool)
    (ends : gone.getLast? = some (.newline, last)) : lineStartAfter lineStart gone = true := by
  obtain ⟨others, rfl⟩ := List.getLast?_eq_some_iff.1 ends
  simp [lineStartAfter, nextLineStart]

/-- Respaced tokens read back, and their text is the same up to the first line break, by
induction on what is kept, dropped and added. -/
theorem lexes_near (h : Respaced here xs ss ys) {lineStart : Bool} (hxs : Lexes lineStart xs) :
    Lexes lineStart ys ∧ Near (charsOf xs) (charsOf ys) := by
  induction h generalizing lineStart with
  | nil => exact ⟨hxs, .inl rfl⟩
  | @keep here x xs ys ss rest ih =>
      cases hxs with
      | cons chars front hrest =>
          obtain ⟨hys, hnear⟩ := ih hrest
          obtain ⟨cs', chars', front'⟩ := lexeme_near chars front hnear
          exact ⟨.cons chars' front' hys, by simpa using hnear.append_left _⟩
  | @drop here text last gone xs ys ss blank ends head rest ih =>
      have hbreak := hxs.isBreak
      cases hxs with
      | cons chars front hrest =>
          have hxs := hrest.of_append
          rw [lineStartAfter_eq_true _ ends] at hxs
          obtain ⟨hys, -⟩ := ih hxs
          have hhead : (charsOf ys).head? ≠ some '\n' :=
            hys.head?_ne (fun x hx => head x (rest.head?_eq ▸ hx)) rfl
          obtain ⟨c, cs, chars', front'⟩ := lexeme_of_isBreak hbreak (fun _ => hhead) lineStart
          exact ⟨.cons chars' front' hys, by simpa using near_behind hbreak _ _⟩
  | @add here text xs ys ss head rest ih =>
      have hbreak := hxs.isBreak
      cases hxs with
      | cons chars front hrest =>
          obtain ⟨hys, -⟩ := ih hrest
          have hhead : (charsOf ys).head? ≠ some '\n' :=
            hys.head?_ne (fun x hx => head x (rest.head?_eq ▸ hx)) rfl
          have hfirst : text.toList = ['\r'] → (text.toList ++ charsOf ys).head? ≠ some '\n' := by
            intro htext
            simp [htext]
          obtain ⟨c, cs, chars', front'⟩ :=
            lexeme_of_isBreak hbreak (fun _ => hhead) (nextLineStart lineStart .newline)
          obtain ⟨d, ds, chars'', front''⟩ := lexeme_of_isBreak hbreak hfirst lineStart
          have hbehind : Lexes (nextLineStart lineStart .newline) ((.newline, text) :: ys) :=
            .cons chars' front' hys
          exact ⟨.cons (by simpa using chars'') front'' hbehind, by simpa using near_behind hbreak _ _⟩

/-- **The new text is cut into the new tokens.** -/
theorem lexes (h : Respaced here xs ss ys) {lineStart : Bool} (hxs : Lexes lineStart xs) :
    Lexes lineStart ys := (h.lexes_near hxs).1

/-! ## The parser sees no difference -/

/-- What looking ahead can see of stored tokens. -/
def seen : Stored → List (Kind × String × Bool)
  | [] => []
  | x :: xs =>
    if x.1.isTrivia then seen xs
    else (x.1, x.2, x.1 == .gt && xs.head?.any (·.1 == .gt)) :: seen xs

/-- What the parser sees of tokens is told by what they store. -/
theorem view_eq_seen (ts : List Token) : Parse.view ts = seen (ts.map Token.stored) := by
  induction ts with
  | nil => rfl
  | cons t ts ih =>
      have hhead : (ts.map Token.stored).head?.any (·.1 == .gt) = ts.head?.any (·.kind == .gt) := by
        cases ts <;> rfl
      simp only [Parse.view, List.map_cons, seen, hhead, ih]
      rfl

theorem isTrivia_of_isKept {x : Kind × String} (h : isKept x = false) : x.1.isTrivia = true := by
  have hkind : x.1 = .whitespace ∨ x.1 = .newline := by
    by_cases hblank : x.1 = .whitespace
    · exact .inl hblank
    · exact .inr (by simpa [isKept, hblank] using h)
  rcases hkind with hkind | hkind <;> rw [hkind] <;> rfl

theorem seen_append_of_trivia {gone : Stored} (h : ∀ x ∈ gone, x.1.isTrivia = true) (xs : Stored) :
    seen (gone ++ xs) = seen xs := by
  induction gone with
  | nil => rfl
  | cons x gone ih =>
      rw [List.cons_append, seen, if_pos (h x List.mem_cons_self),
        ih fun y hy => h y (List.mem_cons_of_mem x hy)]

/-- Respacing changes nothing that the parser sees. -/
theorem seen_eq (h : Respaced here xs ss ys) (zs : Stored) : seen (ys ++ zs) = seen (xs ++ zs) := by
  have hbreak : Kind.newline.isTrivia = true := rfl
  induction h with
  | nil => rfl
  | @keep here x xs ys ss rest ih =>
      have hhead : (ys ++ zs).head? = (xs ++ zs).head? := by
        rw [List.head?_append, List.head?_append, rest.head?_eq]
      simp only [List.cons_append, seen, ih, hhead]
  | drop blank ends head rest ih =>
      have hgone := fun x hx => isTrivia_of_isKept (blank x hx)
      simp only [List.cons_append, seen, hbreak, if_true, List.append_assoc,
        seen_append_of_trivia hgone, ih]
  | add head rest ih => simp only [List.cons_append, seen, hbreak, if_true, ih]

/-! ## The splices -/

/-- Blank lines come and go between stretches of tokens that stay. -/
theorem stitched (h : Respaced here xs ss ys) : Stitched here xs ss ys := by
  induction h with
  | nil here => exact .rest here []
  | keep rest ih => exact ih.cons
  | @drop here text last gone xs ys ss blank ends head rest ih =>
      exact @Stitched.swap here [(.newline, text)] gone _ _ _ _ (.inl (List.cons_ne_nil _ _)) rfl rfl ih
  | @add here text xs ys ss head rest ih =>
      exact @Stitched.swap here [(.newline, text)] [] _ _ _ _ (.inl (List.cons_ne_nil _ _)) rfl rfl ih

/-- No splice marks anything. -/
theorem placed_eq_nil (h : Respaced here xs ss ys) (growth : Int) : Patch.placed growth ss = [] := by
  induction h generalizing growth with
  | nil => rfl
  | keep rest ih => exact ih growth
  | drop blank ends head rest ih => exact ih _
  | add head rest ih => exact ih _

/-! ## What the splices make of the tokens -/

/-- New tokens are copies of old ones. -/
theorem mem_of_mem (h : Respaced here xs ss ys) : ∀ y ∈ ys, y ∈ xs := by
  induction h with
  | nil => exact fun _ hy => hy
  | keep rest ih =>
      intro y hy
      exact List.mem_cons.2 ((List.mem_cons.1 hy).imp_right (ih y))
  | drop blank ends head rest ih =>
      intro y hy
      refine List.mem_cons.2 ((List.mem_cons.1 hy).imp_right fun hy => ?_)
      exact List.mem_append_right _ (ih y hy)
  | add head rest ih =>
      intro y hy
      rcases List.mem_cons.1 hy with rfl | hy
      · exact List.mem_cons_self
      · exact List.mem_cons.2 ((List.mem_cons.1 hy).imp_right (ih y))

/-- **The splices, in any order, give the new tokens**, if none adds text or the new text is short
enough. -/
theorem apply (h : Respaced 0 xs ss ys) {d : Document} {k : Kind} {cs : List Tree} {last : Tree}
    (htree : d.tree = .node k (cs ++ [last])) (htokens : tokensAll cs = xs)
    (hsolid : ∀ x ∈ xs, x.2 ≠ "") {splices : List Splice} (hperm : splices.Perm ss)
    (hfits : (∀ s ∈ splices, s.growth ≤ 0) ∨
      (d.length : Int) + Patch.totalGrowth splices ≤ Patch.maxOffset)
    (stamp : Nat) :
    ∃ o, (⟨d.version, splices⟩ : Patch).apply d stamp = .ok o ∧ o.annotations = [] ∧
      o.document.tree.tokens = ys ++ last.tokens := by
  have hwithin : widthOf xs ≤ d.length := by
    rw [Document.length, width_eq.1, htree, Tree.tokens, tokensAll_append, htokens, widthOf_append]
    exact Nat.le_add_right _ _
  have hreach : Patch.Reachable 0 ss := by
    refine h.stitched.reachable hsolid hwithin (hfits.imp (fun hshrinks s hs => ?_) fun hlength => ?_)
    · exact hshrinks s (hperm.mem_iff.2 (List.mem_of_mem_dropLast hs))
    · rwa [← Patch.totalGrowth_perm hperm]
  obtain ⟨o, happly, hmarks, htokens⟩ := h.stitched.apply htree htokens hsolid
    (fun y hy => hsolid y (h.mem_of_mem y hy)) hperm hreach stamp
  exact ⟨o, happly, hmarks.trans (h.placed_eq_nil 0), htokens⟩

end Respaced

/-- **Blank lines have no say in the structure.**  A text without errors whose blank lines come and go
has none afterwards, its tree differs in trivia only, and it is cut into the new tokens. -/
theorem parse_respaced {text : String} (herr : (parse text).2 = []) {here : Nat} {xs ys : Stored}
    {ss : List Splice} (htokens : (parse text).1.tokens = xs ++ [(.endOfFile, "")])
    (h : Respaced here xs ss ys) :
    (parse (textOf ys)).2 = [] ∧ (parse (textOf ys)).1.bare = (parse text).1.bare ∧
      (parse (textOf ys)).1.tokens = ys ++ [(.endOfFile, "")] := by
  have hstored : (lex text).1.map Token.stored = xs ++ [(.endOfFile, "")] := by
    rw [← parse_tokens, htokens]
  obtain ⟨hstored', hlex'⟩ := lex_of_lexes (h.lexes (lexes_of_parse herr htokens))
  have hview : Parse.view (lex (textOf ys)).1 = Parse.view (lex text).1 := by
    rw [Respaced.view_eq_seen, Respaced.view_eq_seen, hstored, hstored', h.seen_eq]
  obtain ⟨herr', hbare⟩ := parse_insensitive herr hlex' hview
  exact ⟨herr', hbare, by rw [parse_tokens, hstored']⟩

end CodeMend

import CodeMend.Proofs.Parser.Numerals

/-!
# Snippets of members of enumerations

The text of a member with a value is read inside an enumeration of its own.  As for expressions, the
declaration around it is read token by token (`enumMembers_reads`, `enum_reads`), so a name and a
value with an equals sign between them give the member with that name and that value
(`Snippet.enumMember_eq`).
-/

namespace CodeMend.Parse

open Tree

variable {gap : Stored} {t : Tree}

/-- The tree of a member with a value. -/
def memberTree (gap : List Tree) (name : String) (value : Tree) : Tree :=
  .node .enumMemberDeclaration (.token .ident name :: (gap ++
    [.node .equalsValueClause (.token .eq "=" :: (gap ++ [value]))]))

/-- A member without attributes. -/
theorem enumMember_reads (hgap : Lead gap) (hwhole : Whole t) (n : Nat) (name : String) :
    Reads (Stops 0) (enumMember (unfold n)) (gap ++ (memberTree (leaves gap) name t).tokens)
      (leaves gap ++ [memberTree (leaves gap) name t]) := by
  have hattributes : Reads (Next .ident) (attributeLists (unfold n)) [] [] :=
    loop_reads_none fun rest hnext => not_ahead hnext nofun
  have hname := (expect_reads (k := .ident) rfl nofun name lead_nil).cons
    (equalsValue_reads hgap hwhole n).single fun _ _ _ _ => trivial
  have hrow := hattributes.cons hname fun mid rest hmid _ =>
    hmid.next (by simp [kindsOf_cons (k := .ident) rfl])
  have htokens : (memberTree (leaves gap) name t).tokens =
      (.ident, name) :: (gap ++ ((.eq, "=") :: (gap ++ t.tokens))) := by
    simp [memberTree, tokens, tokensAll, tokensAll_append]
  rw [htokens]
  exact hrow.node hgap (⟨rfl, _, _, rfl⟩ : HeadOf .ident _)

/-- A list of one member: no comma is missing before the closing brace. -/
theorem enumMembers_reads (hgap : Lead gap) (hwhole : Whole t) (n : Nat) (name : String) :
    Reads (fun rest => Next .rBrace rest ∧ Stops 0 rest) (enumMembers (unfold n))
      (gap ++ (memberTree (leaves gap) name t).tokens)
      (leaves gap ++ [memberTree (leaves gap) name t]) := by
  intro ts rest hstarts hafter hcut
  obtain ⟨hnext, hstops⟩ := hafter
  have hhead : HeadOf .ident (memberTree (leaves gap) name t).tokens := ⟨rfl, _, _, rfl⟩
  have hcurrent := hstarts.current hgap hhead
  have hclosed : current rest = .rBrace := hnext
  have hitem : Reads (Stops 0) (given (fun ts => ahead .ident ts || ahead .lBracket ts)
      (enumMember (unfold n))) _ _ :=
    (enumMember_reads hgap hwhole n name).either_pos fun us _ hus _ => by
      simp [ahead, hus.current hgap hhead]
  have hstuck : stuck ts ⟨leaves gap ++ [memberTree (leaves gap) name t], [], rest, false⟩ = false := by
    have hlength := hstarts.length
    obtain ⟨-, s, us, hus⟩ := hhead
    simp only [stuck, hlength, hus, List.length_append, List.length_cons, beq_eq_false_iff_ne]
    omega
  unfold enumMembers loop at hcut ⊢
  cases hlength : ts.length with
  | zero =>
      rw [hlength] at hcut
      simp [turns, given, either, ahead, atEnd, hcurrent, giveUp] at hcut
  | succ m =>
      rw [hlength] at hcut
      have hlook : (!ahead .rBrace ts && !atEnd ts) = true := by simp [ahead, atEnd, hcurrent]
      have hagain : (!ahead .rBrace rest && !atEnd rest) = false := by simp [ahead, hclosed]
      have hp : (given (fun ts => ahead .ident ts || ahead .lBracket ts) (enumMember (unfold n))
          ts).cut = false := by
        simp only [turns, hlook, if_true] at hcut
        split at hcut
        · exact commaTurn_cut (cut_andThen hcut).1
        · exact commaTurn_cut hcut
      have hread := hitem ts rest hstarts hstops hp
      generalize given (fun ts => ahead .ident ts || ahead .lBracket ts) (enumMember (unfold n)) = p
        at hread
      have hturn : commaTurn p (fun stuck =>
          if stuck then goOn (skip "Expected an enum member")
          else fun ts => if ahead .rBrace ts then goOn done ts else stop (complain "Expected ',' or '\x7d'") ts)
          ts = ⟨⟨leaves gap ++ [memberTree (leaves gap) name t], [], rest, false⟩, true⟩ := by
        simp [commaTurn, hread, hstuck, hclosed, ahead, goOn, done, Step.andThen]
      cases m with
      | zero => simp [turns, hlook, hturn, given, either, hagain, done, Step.andThen]
      | succ m => simp [turns, hlook, hturn, hagain, done, Step.andThen]

/-- The tree of an enumeration with one member. -/
def enumTree (gap : List Tree) (e : String) (member : Tree) : Tree :=
  .node .enumDeclaration (.token .enumKw "enum" :: (gap ++ .token .ident e :: (gap ++
    .token .lBrace "\x7b" :: (gap ++ member :: (gap ++ [.token .rBrace "\x7d"])))))

/-- An enumeration with one member. -/
theorem enum_reads (hgap : Lead gap) (hwhole : Whole t) (e name : String) (n : Nat) :
    Reads Last (unfold n (.member none))
      (enumTree (leaves gap) e (memberTree (leaves gap) name t)).tokens
      [enumTree (leaves gap) e (memberTree (leaves gap) name t)] := by
  cases n with
  | zero => exact reads_zero
  | succ n =>
      have hsemicolon : Reads Last (eat .semicolon) [] [] :=
        given_reads_none fun rest hlast => not_ahead hlast.next nofun
      have hbrace := (expect_reads (k := .rBrace) rfl nofun "\x7d" hgap).cons hsemicolon.single
        fun _ _ _ _ => trivial
      have hinside := (enumMembers_reads hgap hwhole n name).cons hbrace fun mid rest hmid hlast =>
        ⟨hmid.next (by simp [kindsOf_lead hgap, kindsOf_cons (k := .rBrace) rfl]),
          stops_of_closer (k := .rBrace) (by decide) hgap bland_nil (by simpa using hmid) (by
            rw [show kinds rest = [.endOfFile] from hlast]
            simp [Plain])⟩
      have hopened := (expect_reads (k := .lBrace) rfl nofun "\x7b" hgap).cons hinside
        fun _ _ _ _ => trivial
      have hbase : Reads (Next .lBrace) (given (ahead .colon) (baseList (unfold n))) [] [] :=
        given_reads_none fun rest hnext => not_ahead hnext nofun
      have hbody := hbase.cons hopened fun mid rest hmid _ =>
        hmid.next (by simp [kindsOf_lead hgap, kindsOf_cons (k := .lBrace) rfl])
      have hnamed := (expect_reads (k := .ident) rfl nofun e hgap).cons hbody fun _ _ _ _ => trivial
      have hrow := (bump_reads (k := .enumKw) rfl nofun "enum" lead_nil).cons hnamed
        fun _ _ _ _ => trivial
      have hhead : HeadOf .enumKw
          (enumTree (leaves gap) e (memberTree (leaves gap) name t)).tokens := ⟨rfl, _, _, rfl⟩
      have hdeclared : Reads Last (declared (unfold n) none)
          (enumTree (leaves gap) e (memberTree (leaves gap) name t)).tokens
          [enumTree (leaves gap) e (memberTree (leaves gap) name t)] := by
        refine declared_reads hhead nofun rfl (fun ts rest hstarts => ?_)
          (p := enumDeclaration (unfold n)) ?_
        · have hcurrent := hhead.current hstarts
          simp only [declaration?, hcurrent]
        · simpa [enumDeclaration, enumTree, tokens, tokensAll, tokensAll_append] using hrow
      intro ts rest hstarts hafter hcut
      have hcurrent := hhead.current hstarts
      have hphrase : unfold (n + 1) (.member none) ts = all [flush, declared (unfold n) none] ts := by
        show memberFor (unfold n) none (current ts) ts = _
        rw [hcurrent]
        rfl
      rw [hphrase] at hcut ⊢
      exact hdeclared.flush lead_nil hhead ts rest hstarts hafter hcut

end CodeMend.Parse

namespace CodeMend.Snippet

open Tree Lexer Parse Expression

variable {t : Tree} {name : String}

/-- The file in which a member is read. -/
def housedMember (name : String) (t : Tree) : Tree :=
  enumTree (leaves spaced) "__Make" (memberTree (leaves spaced) name t)

/-- What follows the value in the file. -/
abbrev closingMember : Stored := [blank, (.rBrace, "\x7d")]

theorem tokens_housedMember (name : String) (t : Tree) : (housedMember name t).tokens =
    [(.enumKw, "enum"), blank, (.ident, "__Make"), blank, (.lBrace, "\x7b"), blank,
      (.ident, name), blank, (.eq, "=")] ++ (blank :: (t.tokens ++ closingMember)) := by
  simp [housedMember, enumTree, memberTree, tokens, tokensAll, tokensAll_append]

theorem tokens_memberTree (name : String) (t : Tree) : (memberTree (leaves spaced) name t).tokens =
    (.ident, name) :: blank :: (.eq, "=") :: blank :: t.tokens := by
  simp [memberTree, tokens, tokensAll, tokensAll_append]

theorem text_memberTree (name : String) (t : Tree) :
    (memberTree (leaves spaced) name t).text = name ++ " = " ++ t.text := by
  have htokens : (memberTree (leaves spaced) name t).tokens =
      (.ident, name) :: ([blank, (.eq, "="), blank] ++ t.tokens) := tokens_memberTree name t
  show textOf (memberTree (leaves spaced) name t).tokens = _
  rw [htokens, textOf_cons, textOf_append, String.append_assoc]
  rfl

/-- The tokens of the file around a member read back. -/
theorem Fits.lexes_housedMember (h : Fits t) (hname : Spelled .ident name) :
    Lexes true (housedMember name t).tokens := by
  have henum : Tidy [(.enumKw, "enum")] ["enum"] := .word (by decide +kernel)
  have hmake : Tidy [(.ident, "__Make")] ["__Make"] := .word (by decide +kernel)
  have hbrace : Tidy [(.lBrace, "\x7b")] ["\x7b"] := .word (by decide +kernel)
  have heq : Tidy [(.eq, "=")] ["="] := .word (by decide +kernel)
  have htidy := henum.join (hmake.join (hbrace.join ((Tidy.word hname).join heq)))
  have hclosing : Lexes false closingMember := .cons rfl rfl (.cons rfl rfl (.nil _))
  have hblank := h.lexes_blank hclosing ⟨' ', ['\x7d'], rfl, rfl, by decide⟩
  have hlexes := htidy.lexes hblank ⟨' ', _, rfl, rfl, by decide⟩
  rw [tokens_housedMember]
  exact hlexes.anywhere rfl true

/-- Parsing the text of the file gives the member in its house. -/
theorem Fits.parse_housedMember (h : Fits t) (hname : Spelled .ident name) :
    parse (textOf (housedMember name t).tokens) =
      (.node .compilationUnit [housedMember name t, .token .endOfFile ""], []) := by
  obtain ⟨hstored, hlexErrors⟩ := lex_of_lexes (h.lexes_housedMember hname)
  obtain ⟨hbuilt, herrors⟩ := source_reads (l := .enumKw) ⟨rfl, _, _, rfl⟩ nofun
    (enum_reads lead_spaced h.whole "__Make" name) hstored
  simp [parse, hbuilt, hlexErrors, herrors, SyntaxError.sortByStart]
  rfl

/-- The first member is the one that was put there. -/
theorem find_housedMember (name : String) (t : Tree) :
    ∃ s, (Site.top 0 (.node .compilationUnit [housedMember name t, .token .endOfFile ""])).subnodes.find?
        (·.kind == .enumMemberDeclaration) = some s ∧
      s.tree = memberTree (leaves spaced) name t := by
  simp [Site.subnodes, Site.subtree, Site.top, housedMember, enumTree, memberTree, leaves, spaced,
    blank, Site.subtreeOf, Site.subtreesOf, Site.isNode, Tree.isNode, Tree.isToken, Site.kind,
    Tree.kind]

/-- The text of the file is what name and value are put into. -/
theorem text_housedMember (name : String) (t : Tree) :
    "enum __Make \x7b " ++ (name ++ " = " ++ t.text) ++ " \x7d" =
      textOf (housedMember name t).tokens := by
  have htokens : (housedMember name t).tokens =
      [(.enumKw, "enum"), blank, (.ident, "__Make"), blank, (.lBrace, "\x7b"), blank] ++
        ((memberTree (leaves spaced) name t).tokens ++ closingMember) := by
    rw [tokens_housedMember, tokens_memberTree]
    simp
  rw [htokens, textOf_append, textOf_append, ← text_memberTree, String.append_assoc]
  rfl

/-- Trimming leaves the text of a member as it is: it starts with a name and ends with its
value. -/
theorem Fits.trim_memberTree (h : Fits t) (hname : Spelled .ident name) :
    Text.trim (memberTree (leaves spaced) name t).text = (memberTree (leaves spaced) name t).text := by
  obtain ⟨c, cs, hchars, hc⟩ := (Tidy.word hname).head
  have hfront : charsOf (memberTree (leaves spaced) name t).tokens =
      charsOf [(.ident, name)] ++ (charsOf [blank, (.eq, "="), blank] ++ charsOf t.tokens) := by
    rw [tokens_memberTree, ← charsOf_append, ← charsOf_append]
    rfl
  have hhead : charsOf (memberTree (leaves spaced) name t).tokens =
      c :: (cs ++ (charsOf [blank, (.eq, "="), blank] ++ charsOf t.tokens)) := by
    rw [hfront, hchars, List.cons_append]
  refine trim_textOf ⟨c, _, hhead, hc⟩ ?_
  obtain ⟨d, ds, hvalue, -⟩ := h.head
  obtain ⟨e, hlast⟩ : ∃ e, (charsOf t.tokens).getLast? = some e := by
    rw [hvalue]
    exact ⟨_, List.getLast?_cons⟩
  rw [hfront, ← List.append_assoc]
  exact .of_getLast? (h.last e hlast) hlast

/-- **The snippet of a name and a value is the member with that name and that value.** -/
theorem Fits.enumMember_eq (h : Fits t) (hname : Spelled .ident name) :
    Snippet.enumMember (name ++ " = " ++ t.text) = some (memberTree (leaves spaced) name t) := by
  obtain ⟨s, hfind, htree⟩ := find_housedMember name t
  have htext : s.text = name ++ " = " ++ t.text := by rw [Site.text, htree, text_memberTree]
  have hroot : (Document.ofText 0 (textOf (housedMember name t).tokens)).root =
      Site.top 0 (.node .compilationUnit [housedMember name t, .token .endOfFile ""]) := by
    simp only [Document.ofText, h.parse_housedMember hname, Document.root]
  have herrors : (Document.ofText 0 (textOf (housedMember name t).tokens)).errors = [] := by
    simp only [Document.ofText, h.parse_housedMember hname]
  have htrim := h.trim_memberTree hname
  rw [text_memberTree] at htrim
  rw [Snippet.enumMember, htrim, Snippet.lift, text_housedMember]
  simp [guard_eq_some, hroot, herrors, hfind, htext, htree]

end CodeMend.Snippet

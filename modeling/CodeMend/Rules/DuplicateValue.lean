import CodeMend.Engine.Rule

/-!
# Duplicate values in an enumeration

Reported at a member whose explicit value is that of an earlier member, unless the value names
another member, which is an alias on purpose.  The fix names the earlier member or moves on to a free
value; the latter is not offered where it would shift the value of the next member.
-/

namespace CodeMend.Rules.DuplicateValue

/-- What the rule reports. -/
def descriptor : Descriptor where
  id := "RCS1234"
  title := "Duplicate enum value"
  messageFormat := "Enum member '\x7b0\x7d' has the same value as '\x7b1\x7d'"
  category := "Design"
  severity := .info

/-- The property with the name of the earlier member. -/
def earlierMember : String := "EarlierMember"

/-- The property with the free value. -/
def nextValue : String := "NextValue"

/-- The powers of two that fit the word, from the least one on. -/
def powersOfTwo : List Int64 := (List.range 63).map fun n => .ofNat (Nat.pow 2 n)

/-- A way up through the numbers: each number on it has a greater one behind it. -/
structure Ascent where
  /-- Is the number on the way? -/
  On : Int → Prop
  /-- The number behind another one. -/
  grow : Int → Int
  rises : ∀ {n : Int}, On n → n < grow n ∧ On (grow n)

namespace Ascent

/-- One number after the other. -/
def counting : Ascent where
  On _ := True
  grow n := n + 1
  rises _ := ⟨by omega, trivial⟩

/-- Twice the number, from a positive one on. -/
def doubling : Ascent where
  On n := 0 < n
  grow n := n * 2
  rises h := ⟨by omega, by omega⟩

/-- The word behind another one; none if the number behind it does not fit. -/
def next (a : Ascent) (c : Int64) : Option Int64 := Constant.checked (a.grow c.toInt)

theorem next_on {a : Ascent} {c d : Int64} (on : a.On c.toInt) (h : a.next c = some d) :
    c.toInt < d.toInt ∧ a.On d.toInt := by
  rw [Constant.checked_iff.1 h]
  exact a.rises on

/-- The first word from `candidate` on that is not passed over. -/
def seek (a : Ascent) (passes : Int64 → Bool) (candidate : Int64) (on : a.On candidate.toInt) :
    Option Int64 :=
  if passes candidate then
    match h : a.next candidate with
    | none => none
    | some next => a.seek passes next (next_on on h).2
  else some candidate
termination_by (Int64.maxValue.toInt - candidate.toInt).toNat
decreasing_by
  -- there is room above the candidate, since there is a greater word
  have hrises := (next_on on h).1
  have hroom := Int64.toInt_lt next
  rw [Int64.toInt_maxValue]
  omega

end Ascent

/-- The least unused value above a value; for flags, the least unused power of two above it. -/
def nextFreeValue (value : Int64) (used : List Int64) (flags : Bool) : Option Int64 :=
  if flags then
    Ascent.doubling.seek (fun c => c ≤ value || used.contains c) 1 (show (0 : Int) < 1 by decide)
  else (Ascent.counting.next value).bind fun c => Ascent.counting.seek used.contains c trivial

/-- Is an enumeration a set of flags? -/
def isFlags (enum : Site) : Bool :=
  (enum.childrenOf .attributeList).any fun list =>
    list.subtokens.any fun t => t.kind == .ident && (t.text == "Flags" || t.text == "FlagsAttribute")

/-- Is the expression, without parentheses, a name? -/
def isName (s : Site) : Bool :=
  if s.kind == .parenthesizedExpression then
    match h : s.expression? with
    | some e =>
      have := Site.sizeOf_tree_lt_of_expression? h
      isName e
    | none => false
  else s.kind == .identifierName || s.kind == .memberAccessExpression
termination_by sizeOf s.tree

/-- The search for duplicates under way. -/
structure Search where
  /-- The values that are in use or were given away as free ones. -/
  used : List Int64
  /-- Values with the names of the first members that have them. -/
  first : List (Int64 × String) := []
  found : List Finding := []

/-- The finding at a member whose value an earlier member has, and the search after it. -/
def Search.report (q : Search) (flags : Bool) (member : Site) (next : Option Site) (value : Int64)
    (name earlier : String) : Search :=
  let free :=
    if next.all (·.value?.isSome) then nextFreeValue value q.used flags else none
  let properties := Properties.insert {} earlierMember earlier
  let finding (p : Properties) : Finding :=
    { descriptor := descriptor, span := member.span, arguments := [name, earlier], properties := p }
  match free with
  | none => { q with found := q.found ++ [finding properties] }
  | some v =>
    { q with
      used := v :: q.used
      found := q.found ++ [finding (properties.insert nextValue (toString v.toInt))] }

/-- The search after a member. -/
def Search.step (q : Search) (flags : Bool) (member : Site) (next : Option Site)
    (value : Option Int64) : Search :=
  match value, member.identText? with
  | some value, some name =>
    match q.first.lookup value with
    | none => { q with first := q.first ++ [(value, name)] }
    | some earlier =>
      match member.value? with
      | none => q
      | some e => if isName e then q else q.report flags member next value name earlier
  | _, _ => q

/-- The search through members, each with its value. -/
def Search.through (flags : Bool) : Search → List (Site × Option Int64) → Search
  | q, [] => q
  | q, (member, value) :: rest =>
    through flags (q.step flags member (rest.head?.map Prod.fst) value) rest

/-- The integer value of a member. -/
def memberValue? (m : Model) (member : Site) : Option Int64 :=
  (m.constant? member).bind Constant.asInt?

/-- What is found at an enumeration. -/
def findings (c : Context) (enum : Site) : List Finding :=
  let members := enum.enumMembers.map fun s => (s, memberValue? c.model s)
  (Search.through (isFlags enum) { used := members.filterMap Prod.snd } members).found

/-- An action that gives a member another value. -/
def changeValue (c : Context) (value : Site) (new : Option Tree) (title variant : String) :
    Except EditError (List CodeAction) :=
  match new with
  | none => .ok []
  | some t => do
    let e ← c.editor.replaceNode value ⟨[t], []⟩
    return [⟨title, .ofVariant descriptor.id variant, .fix, e.patch⟩]

/-- Names the earlier member, or moves on to the free value. -/
def fix (c : Context) (d : Diagnostic) : Except EditError (List CodeAction) :=
  let member := (c.nodeAt? d.span).filter (·.kind == .enumMemberDeclaration)
  match member.bind Site.value? with
  | none => .ok []
  | some value => do
    let named ← match d.properties.get? earlierMember with
      | none => pure []
      | some name =>
        changeValue c value (Snippet.identifierName name) ("Use '" ++ name ++ "' as the value")
          "UseMember"
    let free ← match d.properties.get? nextValue with
      | none => pure []
      | some next =>
        changeValue c value (Snippet.expression next) ("Change the value to " ++ next) "NextValue"
    return named ++ free

/-- Finds duplicate values. -/
def analyzer : Analyzer := .ofFindings descriptor [.enumDeclaration] findings

/-- Resolves them. -/
def provider : FixProvider := ⟨[descriptor.id], fun c d => .ofEdits (fix c d)⟩

end CodeMend.Rules.DuplicateValue

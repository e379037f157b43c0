import CodeMend.Proofs.Engine.Runs
import CodeMend.Proofs.Parser.Numerals
import CodeMend.Proofs.Rules.FreeValue
import CodeMend.Proofs.Semantic.Naming

/-!
# Duplicate values in an enumeration: what the fixes do

Whatever the search through the members of an enumeration finds is a member with an explicit value
that an earlier member has too; the free value that goes with it is greater, is no value of a member
and is given away once (`findings_reported`).

Naming the earlier member leaves the values of all members as they are if and only if the earlier
member does not depend on the one that is mended (`useMember_keeps_iff`).  Moving on to the free value
gives that value to the mended member and changes no member that does not depend on it
(`nextValue_moves`).
-/

namespace CodeMend.Rules.DuplicateValue

open Site Tree

/-! ## The search -/

theorem nextFreeValue_free {value free : Int64} {used : List Int64} {flags : Bool}
    (h : nextFreeValue value used flags = some free) : value < free ∧ free ∉ used := by
  obtain ⟨passed, hsearch⟩ := exists_searches value used flags
  obtain ⟨hgreater, hfresh, -⟩ := ((hsearch.least.1 free).1 h).1
  exact ⟨hgreater, hfresh⟩

/-- What is known of a finding at a member. -/
structure Reported (members : List (Site × Option Int64)) (used : List Int64) (f : Finding)
    (member earlier : Site) (value : Int64) : Prop where
  place : ∃ before after, members = before ++ (member, some value) :: after ∧
    (earlier, some value) ∈ before
  explicit : member.value?.isSome = true
  span : f.span = member.span
  named : ∃ name, earlier.identText? = some name ∧ f.properties.get? earlierMember = some name
  free : ∀ text, f.properties.get? nextValue = some text →
    ∃ n : Int64, text = toString n.toInt ∧ value < n ∧ n ∉ used

theorem Reported.append {members more : List (Site × Option Int64)} {used : List Int64}
    {f : Finding} {member earlier : Site} {value : Int64}
    (h : Reported members used f member earlier value) :
    Reported (members ++ more) used f member earlier value := by
  obtain ⟨before, after, rfl, hearlier⟩ := h.place
  exact { h with place := ⟨before, after ++ more, by simp, hearlier⟩ }

/-- What holds of the search when it has passed the members in `done`.  `values` are the values that
were in use when it started, and `given` are those that it gave away. -/
structure Search.Holds (values : List Int64) (done : List (Site × Option Int64)) (q : Search)
    (given : List Int64) : Prop where
  first : ∀ value name, q.first.lookup value = some name →
    ∃ s, (s, some value) ∈ done ∧ s.identText? = some name
  used : ∀ v ∈ values, v ∈ q.used
  found : ∀ f ∈ q.found, f.descriptor = descriptor ∧
    ∃ member earlier value, Reported done values f member earlier value
  given_used : ∀ v ∈ given, v ∈ q.used
  given_nodup : given.Nodup
  given_eq : q.found.filterMap (·.properties.get? nextValue) = given.map fun v => toString v.toInt

theorem get_earlier (name : String) :
    (Properties.insert {} earlierMember name).get? earlierMember = some name ∧
      (Properties.insert {} earlierMember name).get? nextValue = none := by
  constructor <;> rfl

theorem get_next (name text : String) :
    ((Properties.insert {} earlierMember name).insert nextValue text).get? earlierMember =
        some name ∧
      ((Properties.insert {} earlierMember name).insert nextValue text).get? nextValue =
        some text := by
  constructor <;> rfl

/-- A member whose value an earlier one has is reported as it should be. -/
theorem Search.Holds.report {values given : List Int64} {done : List (Site × Option Int64)}
    {q : Search} (h : q.Holds values done given) {flags : Bool} {member : Site}
    {next : Option Site} {value : Int64} {name earlier : String}
    (hearlier : q.first.lookup value = some earlier) (hexplicit : member.value?.isSome = true) :
    ∃ given', (q.report flags member next value name earlier).Holds values
      (done ++ [(member, some value)]) given' := by
  obtain ⟨s, hs, hname⟩ := h.first value earlier hearlier
  have hold {f : Finding} (hf : f ∈ q.found) : f.descriptor = descriptor ∧
      ∃ member' earlier' value', Reported (done ++ [(member, some value)]) values f member' earlier'
        value' := by
    obtain ⟨hdescriptor, member', earlier', value', hreported⟩ := h.found f hf
    exact ⟨hdescriptor, member', earlier', value', hreported.append⟩
  have hfirst : ∀ v n, q.first.lookup v = some n →
      ∃ s, (s, some v) ∈ done ++ [(member, some value)] ∧ s.identText? = some n := by
    intro v n hv
    obtain ⟨r, hr, hrName⟩ := h.first v n hv
    exact ⟨r, List.mem_append_left _ hr, hrName⟩
  have hplace : ∃ before after, done ++ [(member, some value)] =
      before ++ (member, some value) :: after ∧ (s, some value) ∈ before := ⟨done, [], rfl, hs⟩
  unfold Search.report
  dsimp only
  split
  · -- no value is free
    refine ⟨given, hfirst, h.used, fun f hf => ?_, h.given_used, h.given_nodup, ?_⟩
    · rcases List.mem_append.1 hf with hf | hf
      · exact hold hf
      · obtain rfl := List.mem_singleton.1 hf
        refine ⟨rfl, member, s, value, hplace, hexplicit, rfl, ⟨earlier, hname, (get_earlier _).1⟩, ?_⟩
        intro text htext
        rw [(get_earlier earlier).2] at htext
        cases htext
    · rw [List.filterMap_append, h.given_eq]
      exact List.append_nil _
  · next free hfree =>
    obtain ⟨hgreater, hfresh⟩ : value < free ∧ free ∉ q.used := by
      split at hfree
      · exact nextFreeValue_free hfree
      · cases hfree
    refine ⟨given ++ [free], hfirst, fun v hv => List.mem_cons_of_mem _ (h.used v hv),
      fun f hf => ?_, fun v hv => ?_, ?_, ?_⟩
    · rcases List.mem_append.1 hf with hf | hf
      · exact hold hf
      · obtain rfl := List.mem_singleton.1 hf
        refine ⟨rfl, member, s, value, hplace, hexplicit, rfl, ⟨earlier, hname, (get_next _ _).1⟩, ?_⟩
        intro text htext
        rw [(get_next _ _).2] at htext
        exact ⟨free, (Option.some.inj htext).symm, hgreater, fun hv => hfresh (h.used _ hv)⟩
    · rcases List.mem_append.1 hv with hv | hv
      · exact List.mem_cons_of_mem _ (h.given_used v hv)
      · rw [List.mem_singleton.1 hv]
        exact List.mem_cons_self
    · refine List.nodup_append'.2 ⟨h.given_nodup, List.nodup_singleton _, ?_⟩
      intro v hv hv'
      rw [List.mem_singleton.1 hv'] at hv
      exact hfresh (h.given_used _ hv)
    · rw [List.filterMap_append, h.given_eq, List.map_append]
      rfl

/-- The step lemma: passing a member. -/
theorem Search.Holds.step {values given : List Int64} {done : List (Site × Option Int64)}
    {q : Search} (h : q.Holds values done given) (flags : Bool) (member : Site) (next : Option Site)
    (value : Option Int64) :
    ∃ given', (q.step flags member next value).Holds values (done ++ [(member, value)]) given' := by
  have hkept : ∃ given', q.Holds values (done ++ [(member, value)]) given' := by
    refine ⟨given, fun v n hv => ?_, h.used, fun f hf => ?_, h.given_used, h.given_nodup, h.given_eq⟩
    · obtain ⟨s, hs, hname⟩ := h.first v n hv
      exact ⟨s, List.mem_append_left _ hs, hname⟩
    · obtain ⟨hdescriptor, member', earlier', value', hreported⟩ := h.found f hf
      exact ⟨hdescriptor, member', earlier', value', hreported.append⟩
  unfold Search.step
  split
  · next value name hname =>
    split
    · next hnew =>
      obtain ⟨given', hkept⟩ := hkept
      refine ⟨given', { hkept with first := fun v n hv => ?_ }⟩
      rw [List.lookup_append] at hv
      cases hold : q.first.lookup v with
      | some n' =>
          rw [hold, Option.some_or] at hv
          obtain rfl := Option.some.inj hv
          exact hkept.first v n' hold
      | none =>
          rw [hold, Option.none_or, List.lookup_cons] at hv
          split at hv
          · next hsame =>
            obtain rfl := Option.some.inj hv
            rw [beq_iff_eq.1 hsame]
            exact ⟨member, List.mem_append_right _ (List.mem_singleton_self _), hname⟩
          · cases hv
    · next earlier hearlier =>
      split
      · exact hkept
      · next e he =>
        split
        · exact hkept
        · exact h.report hearlier (by rw [he]; rfl)
  · exact hkept

/-- The run lemma: passing all members. -/
theorem Search.Holds.through {values given : List Int64} {flags : Bool}
    {done rest : List (Site × Option Int64)} {q : Search} (h : q.Holds values done given) :
    ∃ given', (Search.through flags q rest).Holds values (done ++ rest) given' := by
  induction rest generalizing done q given with
  | nil => exact ⟨given, by rwa [List.append_nil]⟩
  | cons entry rest ih =>
      obtain ⟨member, value⟩ := entry
      obtain ⟨given', hstep⟩ := h.step flags member (rest.head?.map Prod.fst) value
      obtain ⟨given'', hrest⟩ := ih hstep
      rw [List.append_assoc] at hrest
      exact ⟨given'', hrest⟩

/-- The members of an enumeration with their values. -/
def valued (m : Model) (enum : Site) : List (Site × Option Int64) :=
  enum.enumMembers.map fun s => (s, memberValue? m s)

/-- A member in the table of values stands at the same place among the members, and its value
there is its own. -/
theorem valued_split {m : Model} {enum s : Site} {value : Option Int64}
    {before after : List (Site × Option Int64)}
    (h : valued m enum = before ++ ((s, value) :: after)) :
    enum.enumMembers = before.map Prod.fst ++ s :: after.map Prod.fst ∧
      memberValue? m s = value := by
  have hfirst := congrArg (List.map Prod.fst) h
  have hmem : (s, value) ∈ valued m enum := by
    rw [h]
    simp
  obtain ⟨r, -, hr⟩ := List.mem_map.1 hmem
  obtain ⟨rfl, rfl⟩ := Prod.mk.inj hr
  refine ⟨?_, rfl⟩
  simpa [valued, Function.comp_def] using hfirst

/-- **What is found at an enumeration.** -/
theorem findings_reported (c : Context) (enum : Site) :
    (∀ f ∈ findings c enum, f.descriptor = descriptor ∧ ∃ member earlier value,
      Reported (valued c.model enum) ((valued c.model enum).filterMap Prod.snd) f member earlier value) ∧
    ∃ given : List Int64, given.Nodup ∧ (findings c enum).filterMap (·.properties.get? nextValue) =
      given.map fun v => toString v.toInt := by
  have hstart : Search.Holds ((valued c.model enum).filterMap Prod.snd) []
      { used := (valued c.model enum).filterMap Prod.snd } [] :=
    ⟨fun _ _ h => by simp at h, fun _ h => h, fun _ h => by simp at h, fun _ h => by simp at h,
      List.nodup_nil, rfl⟩
  obtain ⟨given, hend⟩ : ∃ given, (Search.through (isFlags enum) _ (valued c.model enum)).Holds
      ((valued c.model enum).filterMap Prod.snd) ([] ++ valued c.model enum) given := hstart.through
  exact ⟨hend.found, given, hend.given_nodup, hend.given_eq⟩

/-! ## Values of numerals -/

/-- A literal has the number that it writes. -/
theorem hasValue_literal {m : Model} {n : Nat} {v : Int64} (hv : v.toInt = n) {s : Site}
    (hs : s.tree = .node .literalExpression [.token .intLiteral (toString n)]) :
    m.HasValue s (.int v) := by
  obtain ⟨tree, start, above, origin⟩ := s
  obtain rfl : tree = _ := hs
  refine .of_gives (.literal rfl rfl ?_)
  show (Constant.readInt? (toString n)).map Constant.int = some (.int v)
  rw [Constant.readInt_toString, Constant.checked_iff.2 hv]
  rfl

/-- The numeral of a word has that value.  The least word has none: its digits are no word. -/
theorem hasValue_numeral {m : Model} {v : Int64} (hv : Int64.minValue < v) {s : Site}
    (hs : s.tree = numeral v.toInt) : m.HasValue s (.int v) := by
  cases hint : v.toInt with
  | ofNat n =>
      rw [hint] at hs
      exact hasValue_literal hint hs
  | negSucc n =>
      have hneg : (-v).toInt = (n + 1 : Nat) := by
        have hmin := Int64.lt_iff_toInt_lt.1 hv
        rw [Int64.toInt_neg, hint, Int.bmod_eq_of_le]
        all_goals rw [Int64.toInt_minValue, hint] at hmin
        all_goals omega
      rw [hint] at hs
      obtain ⟨tree, start, above, origin⟩ := s
      obtain rfl : tree = _ := hs
      refine .of_gives (.unary rfl rfl rfl (hasValue_literal hneg rfl) (.minus ?_))
      rw [hneg, hint]
      rfl

/-! ## The fixes -/

section Fix

variable {version : Nat} {text : String} {options : Options} {cancel : Cancellation}
  {report : Report} {d : Diagnostic}

/-- What is reported was found at an enumeration. -/
theorem exists_reported
    (hreport : builtin.analyze (.ofText version text) options cancel = .ok report)
    (hd : d ∈ report.diagnostics) (hid : d.id = descriptor.id) :
    ∃ enum ∈ (Document.ofText version text).root.subnodes, enum.kind = .enumDeclaration ∧
      ∃ f ∈ findings (.ofDocument (.ofText version text) options) enum,
        d.span = f.span ∧ d.properties = f.properties := by
  have hrules : builtin.analyzers =
      builtin.analyzers.take 3 ++ analyzer :: builtin.analyzers.drop 4 := rfl
  obtain ⟨enum, henum, hkind, f, hf, hdiagnostic⟩ :=
    Registry.exists_finding_of_id builtin_calm hrules (by decide) hreport hd hid
  obtain ⟨severity, rfl⟩ := Analyzer.diagnostic?_eq hdiagnostic
  exact ⟨enum, henum, List.mem_singleton.1 hkind, f, hf, rfl, rfl⟩

/-- The splice that gives a member another value. -/
def valueSplice (value : Site) (t : Tree) : Splice := ⟨value.span, some value.kind, ⟨[t], []⟩⟩

/-- Changing a value is one action with one splice, under the key of its variant. -/
theorem changeValue_ok {c : Context} {value : Site} {new : Option Tree} {title variant : String}
    {actions : List CodeAction} (h : changeValue c value new title variant = .ok actions) :
    ∀ a ∈ actions, ∃ t, new = some t ∧ a.key = .ofVariant descriptor.id variant ∧
      a.patch = ⟨c.document.version, [valueSplice value t]⟩ := by
  intro a ha
  unfold changeValue at h
  split at h
  · obtain rfl := Except.ok.inj h
    cases ha
  · next t =>
    obtain ⟨e, he, h⟩ := bind_eq_ok h
    obtain rfl := Except.ok.inj h
    obtain rfl := List.mem_singleton.1 ha
    unfold Editor.replaceNode at he
    obtain ⟨-, -, he⟩ := bind_eq_ok he
    obtain ⟨-, -, he⟩ := bind_eq_ok he
    obtain rfl := Except.ok.inj he
    exact ⟨t, rfl, rfl, rfl⟩

/-- The fixes for a member replace its value by the name of the earlier member or by the free value. -/
theorem fix_ok {c : Context} {member value : Site} {actions : List CodeAction}
    (hnode : c.nodeAt? d.span = some member) (hkind : member.kind = .enumMemberDeclaration)
    (hvalue : member.value? = some value) (h : fix c d = .ok actions) :
    ∀ a ∈ actions, ∃ t, a.patch = ⟨c.document.version, [valueSplice value t]⟩ ∧
      ((a.key = .ofVariant descriptor.id "UseMember" ∧
          ∃ name, d.properties.get? earlierMember = some name ∧ Snippet.identifierName name = some t) ∨
        (a.key = .ofVariant descriptor.id "NextValue" ∧
          ∃ next, d.properties.get? nextValue = some next ∧ Snippet.expression next = some t)) := by
  have hmember : ((c.nodeAt? d.span).filter (·.kind == .enumMemberDeclaration)).bind value? =
      some value := by
    rw [hnode, Option.filter_some, if_pos (beq_iff_eq.2 hkind)]
    exact hvalue
  unfold fix at h
  dsimp only at h
  rw [hmember] at h
  -- the second part comes behind the first one
  obtain ⟨named, free, rfl, hnamed, hfree⟩ : ∃ named free : List CodeAction, actions = named ++ free ∧
      (∀ a ∈ named, ∃ name, d.properties.get? earlierMember = some name ∧ ∃ others, a ∈ others ∧
        changeValue c value (Snippet.identifierName name) ("Use '" ++ name ++ "' as the value")
          "UseMember" = .ok others) ∧
      ∀ a ∈ free, ∃ next, d.properties.get? nextValue = some next ∧ ∃ others, a ∈ others ∧
        changeValue c value (Snippet.expression next) ("Change the value to " ++ next)
          "NextValue" = .ok others := by
    dsimp only at h
    split at h
    · split at h
      · exact ⟨[], [], (Except.ok.inj h).symm, List.forall_mem_nil _, List.forall_mem_nil _⟩
      · next next hnext =>
        rw [pure_bind] at h
        obtain ⟨free, hfree, h⟩ := bind_eq_ok h
        exact ⟨[], free, (Except.ok.inj h).symm, List.forall_mem_nil _,
          fun a ha => ⟨next, hnext, free, ha, hfree⟩⟩
    · next name hname =>
      obtain ⟨named, hnamed, h⟩ := bind_eq_ok h
      have hearlier : ∀ a ∈ named, ∃ name, d.properties.get? earlierMember = some name ∧
          ∃ others, a ∈ others ∧ changeValue c value (Snippet.identifierName name)
            ("Use '" ++ name ++ "' as the value") "UseMember" = .ok others :=
        fun a ha => ⟨name, hname, named, ha, hnamed⟩
      split at h
      · exact ⟨named, [], (Except.ok.inj h).symm, hearlier, List.forall_mem_nil _⟩
      · next next hnext =>
        obtain ⟨free, hfree, h⟩ := bind_eq_ok h
        exact ⟨named, free, (Except.ok.inj h).symm, hearlier,
          fun a ha => ⟨next, hnext, free, ha, hfree⟩⟩
  intro a ha
  rcases List.mem_append.1 ha with ha | ha
  · obtain ⟨name, hname, others, hother, hchange⟩ := hnamed a ha
    obtain ⟨t, ht, hkey, hpatch⟩ := changeValue_ok hchange a hother
    exact ⟨t, hpatch, Or.inl ⟨hkey, name, hname, ht⟩⟩
  · obtain ⟨next, hnext, others, hother, hchange⟩ := hfree a ha
    obtain ⟨t, ht, hkey, hpatch⟩ := changeValue_ok hchange a hother
    exact ⟨t, hpatch, Or.inr ⟨hkey, next, hnext, ht⟩⟩

/-- What a diagnostic says of the enumeration in which it was found: a member and an earlier one have
the same value, and the free value is greater and no value of a member. -/
structure Duplicate (m : Model) (d : Diagnostic) (enum member earlier : Site) (v : Int64) : Prop where
  enum_mem : enum ∈ m.root.subnodes
  enum_kind : enum.kind = .enumDeclaration
  order : ∃ before after, enum.enumMembers = before ++ member :: after ∧ earlier ∈ before
  constant : m.constant? member = some (.int v)
  earlier_constant : m.constant? earlier = some (.int v)
  explicit : member.value?.isSome = true
  span : d.span = member.span
  named : ∃ name, earlier.identText? = some name ∧ d.properties.get? earlierMember = some name
  free : ∀ text, d.properties.get? nextValue = some text → ∃ n : Int64, text = toString n.toInt ∧
    v < n ∧ ∀ s ∈ enum.enumMembers, m.constant? s ≠ some (.int n)

theorem Duplicate.members {m : Model} {enum member earlier : Site} {v : Int64}
    (h : Duplicate m d enum member earlier v) :
    member ∈ enum.enumMembers ∧ earlier ∈ enum.enumMembers := by
  obtain ⟨before, after, hsplit, hbefore⟩ := h.order
  rw [hsplit]
  exact ⟨by simp, List.mem_append_left _ hbefore⟩

/-- The value of a member is its constant. -/
theorem constant_of_memberValue {m : Model} {s : Site} {v : Int64} (h : memberValue? m s = some v) :
    m.constant? s = some (.int v) := by
  obtain ⟨value, hvalue, hint⟩ := Option.bind_eq_some_iff.1 h
  cases value with
  | int n =>
      obtain rfl := Option.some.inj hint
      exact hvalue
  | bool | char | string | null => cases hint

/-- **Every diagnostic is about a duplicate.** -/
theorem exists_duplicate
    (hreport : builtin.analyze (.ofText version text) options cancel = .ok report)
    (hd : d ∈ report.diagnostics) (hid : d.id = descriptor.id) : ∃ enum member earlier v,
      Duplicate (.ofDocument (.ofText version text) options.catalog) d enum member earlier v := by
  obtain ⟨enum, henum, hkind, f, hf, hspan, hproperties⟩ := exists_reported hreport hd hid
  obtain ⟨-, member, earlier, v, hreported⟩ :=
    (findings_reported (.ofDocument (.ofText version text) options) enum).1 f hf
  obtain ⟨before, after, hsplit, hearlier⟩ := hreported.place
  obtain ⟨hmembers, hvalue⟩ := valued_split hsplit
  obtain ⟨xs, ys, hxs⟩ := List.append_of_mem hearlier
  have hearlierValue :=
    (valued_split (hsplit.trans ((congrArg (· ++ _) hxs).trans (List.append_assoc ..)))).2
  refine ⟨enum, member, earlier, v, henum, hkind,
    ⟨before.map Prod.fst, after.map Prod.fst, hmembers, List.mem_map_of_mem hearlier⟩,
    constant_of_memberValue hvalue, constant_of_memberValue hearlierValue, hreported.explicit,
    hspan.trans hreported.span, ?_, ?_⟩
  · rw [hproperties]
    exact hreported.named
  · intro next hnext
    rw [hproperties] at hnext
    obtain ⟨n, htext, hgreater, hfresh⟩ := hreported.free next hnext
    refine ⟨n, htext, hgreater, fun s hs hconstant => hfresh ?_⟩
    refine List.mem_filterMap.2 ⟨(s, some n), ?_, rfl⟩
    refine List.mem_map.2 ⟨s, hs, Prod.ext rfl ?_⟩
    show memberValue? _ s = some n
    unfold memberValue?
    exact Option.bind_eq_some_iff.2 ⟨.int n, hconstant, rfl⟩

variable {action : CodeAction} {applied : Applied} {enum member earlier : Site} {v : Int64}

/-- An action for a duplicate gives the member another value. -/
theorem exists_edit (hclean : (Document.ofText version text).errors = [])
    (hduplicate : Duplicate (.ofDocument (.ofText version text) options.catalog) d enum member earlier v)
    (hid : d.id = descriptor.id) (h : builtin.Mended (.ofText version text) options d action applied) :
    ∃ value t, member.value? = some value ∧ applied.document.tree = value.graft [t] ∧
      ((action.key = .ofVariant descriptor.id "UseMember" ∧
          ∃ name, d.properties.get? earlierMember = some name ∧ Snippet.identifierName name = some t) ∨
        (action.key = .ofVariant descriptor.id "NextValue" ∧
          ∃ next, d.properties.get? nextValue = some next ∧ Snippet.expression next = some t)) := by
  obtain ⟨hmem, hkind, -⟩ := mem_of_enumMembers hduplicate.enum_mem hduplicate.members.1
  obtain ⟨value, hvalue⟩ := Option.isSome_iff_exists.1 hduplicate.explicit
  obtain ⟨actions, hactions, haction⟩ := h.fixesIn
  obtain ⟨cancel', stamp, happly⟩ := h.done
  have hdispatch : builtin.dispatch d = [provider] := by
    rw [Registry.dispatch, hid]
    rfl
  have hfix : fix (.ofDocument (.ofText version text) options) d = .ok actions :=
    Offer.of_settle_ofEdits (Registry.fixesIn_eq hdispatch hactions) (List.ne_nil_of_mem haction)
  have hnode : (Context.ofDocument (.ofText version text) options).nodeAt? d.span = some member := by
    obtain ⟨hisNode, token, htoken, hleaf, hwidth⟩ :=
      Document.named_constantNode hclean hmem (by simp [Model.isConstantNode, hkind])
    rw [hduplicate.span]
    exact findNode?_span (List.mem_filter.1 hmem).1 hisNode htoken hleaf hwidth .following
  obtain ⟨t, hpatch, hcases⟩ := fix_ok hnode hkind hvalue hfix action haction
  refine ⟨value, t, hvalue, ?_, hcases⟩
  have hsplice : (Document.ofText version text).tree.splice (valueSplice value t) =
      .ok applied.document.tree := by
    unfold CodeAction.apply at happly
    rw [hpatch] at happly
    exact Patch.splice_of_mend rfl happly
  obtain ⟨hvalueMem, hvalueNode, htop⟩ := Document.topmost_value hclean hmem hkind hvalue
  obtain ⟨clause, -, hclause⟩ : ∃ clause, member.child? .equalsValueClause = some clause ∧
      clause.expression? = some value := by
    rw [value?, hkind, if_neg (by decide)] at hvalue
    exact Option.bind_eq_some_iff.1 hvalue
  have hfits := List.find?_some hclause
  have hexpression := (Bool.and_eq_true_iff.1 hfits).1
  have hwidth : 0 < value.tree.width :=
    Document.width_pos hclean hvalueMem (by rintro h; rw [h] at hexpression; cases hexpression)
      (by rintro h; rw [h] at hexpression; cases hexpression)
  have hroot : value ≠ top (Document.ofText version text).origin (Document.ofText version text).tree := by
    rintro rfl
    have hchild := (List.mem_filter.1 (List.mem_of_find?_eq_some hclause)).1
    cases parent?_of_mem_children hchild
  rw [valueSplice, splice_graft hvalueMem hvalueNode hwidth htop hroot] at hsplice
  exact (Except.ok.inj hsplice).symm

/-- The name of a member is a word, so the snippet for it is a name. -/
theorem identifierName_of_member (hclean : (Document.ofText version text).errors = []) {name : String}
    (hearlier : earlier ∈ (Document.ofText version text).root.subnodes)
    (hname : earlier.identText? = some name) :
    Snippet.identifierName name = some (.node .identifierName [.token .ident name]) ∧
      0 < (Tree.node .identifierName [.token .ident name]).width := by
  have htoken : Tree.token .ident name ∈ earlier.tree.children := by
    rw [identText?_eq] at hname
    obtain ⟨t, ht, rfl⟩ := Option.map_eq_some_iff.1 hname
    have hkind := List.find?_some ht
    obtain ⟨hmem, htoken⟩ := List.mem_filter.1 (List.mem_of_find?_eq_some ht)
    cases t with
    | token k spelling =>
        obtain rfl : k = .ident := beq_iff_eq.1 hkind
        exact hmem
    | node k cs => cases htoken
  have hmem : (Kind.ident, name) ∈ (parse text).1.tokens := by
    refine tokens_subset_of_mem (List.mem_filter.1 hearlier).1 ?_
    cases htree : earlier.tree with
    | token k spelling => rw [htree] at htoken; cases htoken
    | node k cs =>
        rw [htree] at htoken
        exact mem_tokensAll htoken
  have hspelled := parse_spelled hclean hmem
  refine ⟨Snippet.identifierName_eq hspelled, ?_⟩
  rw [width, widthAll, widthAll, width]
  exact Nat.lt_add_right 0 hspelled.size_pos

/-- **Using the earlier member is an edit of one value**: its name is put where the value of the
duplicate stood. -/
theorem edit_of_name (hclean : (Document.ofText version text).errors = [])
    (hduplicate : Duplicate (.ofDocument (.ofText version text) options.catalog) d enum member earlier v)
    (hid : d.id = descriptor.id) (h : builtin.Mended (.ofText version text) options d action applied)
    (hkey : action.key = .ofVariant descriptor.id "UseMember") :
    ∃ value name, earlier.identText? = some name ∧ MemberEdit version text applied.document member value
      (.node .identifierName [.token .ident name]) := by
  obtain ⟨hmem, hkind, -⟩ := mem_of_enumMembers hduplicate.enum_mem hduplicate.members.1
  obtain ⟨hearlierMem, -⟩ := mem_of_enumMembers hduplicate.enum_mem hduplicate.members.2
  obtain ⟨name, hname, hproperty⟩ := hduplicate.named
  obtain ⟨hsnippet, hwidth⟩ := identifierName_of_member hclean hearlierMem hname
  obtain ⟨value, t, hvalue, htree, ⟨-, name', hname', ht⟩ | ⟨hother, -⟩⟩ :=
    exists_edit hclean hduplicate hid h
  · obtain rfl : name = name' := Option.some.inj (hproperty.symm.trans hname')
    obtain rfl : _ = t := Option.some.inj (hsnippet.symm.trans ht)
    exact ⟨value, name, hname, hclean, hmem, hkind, hvalue, htree, rfl, hwidth, rfl, trivial, trivial⟩
  · rw [hkey] at hother
    exact absurd hother (by decide)

/-- **Naming the earlier member.**  In a text without errors, in which the members of each enumeration
have names of their own, giving the name of the earlier member to a duplicate leaves the constants of
all members of all enumerations as they are if and only if the earlier member does not get its value
from the duplicate. -/
theorem useMember_keeps_iff (hclean : (Document.ofText version text).errors = [])
    (hdistinct : ∀ enum ∈ (Document.ofText version text).root.subnodes,
      enum.kind = .enumDeclaration → (enum.enumMembers.map identText?).Nodup)
    (hid : d.id = descriptor.id) (h : builtin.Mended (.ofText version text) options d action applied)
    (hkey : action.key = .ofVariant descriptor.id "UseMember") :
    ∃ enum member earlier v,
      Duplicate (.ofDocument (.ofText version text) options.catalog) d enum member earlier v ∧
      ((Document.ofText version text).memberConstants options.catalog =
          applied.document.memberConstants options.catalog ↔
        ¬ (Model.ofDocument (.ofText version text) options.catalog).DependsOn earlier member) := by
  obtain ⟨cancel, report, hreport, hd⟩ := h.reported
  obtain ⟨enum, member, earlier, v, hduplicate⟩ := exists_duplicate hreport hd hid
  refine ⟨enum, member, earlier, v, hduplicate, ?_⟩
  obtain ⟨value, name, hname, E⟩ := edit_of_name hclean hduplicate hid h hkey
  exact E.constants_eq_iff options.catalog hduplicate.enum_mem hduplicate.enum_kind
    (hdistinct enum hduplicate.enum_mem hduplicate.enum_kind) hduplicate.members.1
    hduplicate.members.2 hname hduplicate.constant hduplicate.earlier_constant

/-- The fix that moves on writes the numeral of the free value. -/
theorem edit_of_free (hclean : (Document.ofText version text).errors = [])
    (hduplicate : Duplicate (.ofDocument (.ofText version text) options.catalog) d enum member earlier v)
    (hid : d.id = descriptor.id) (h : builtin.Mended (.ofText version text) options d action applied)
    (hkey : action.key = .ofVariant descriptor.id "NextValue") :
    ∃ (value : Site) (free : Int64), v < free ∧
      (∀ s ∈ enum.enumMembers, (Model.ofDocument (.ofText version text) options.catalog).constant? s ≠
        some (.int free)) ∧
      MemberEdit version text applied.document member value (numeral free.toInt) := by
  obtain ⟨hmem, hkind, -⟩ := mem_of_enumMembers hduplicate.enum_mem hduplicate.members.1
  obtain ⟨value, t, hvalue, htree, ⟨hother, -⟩ | ⟨-, next, hnext, ht⟩⟩ :=
    exists_edit hclean hduplicate hid h
  · rw [hkey] at hother
    exact absurd hother (by decide)
  · obtain ⟨free, rfl, hgreater, hfresh⟩ := hduplicate.free next hnext
    obtain rfl : numeral free.toInt = t :=
      Option.some.inj ((Snippet.expression_toString free.toInt).symm.trans ht)
    refine ⟨value, free, hgreater, hfresh, hclean, hmem, hkind, hvalue, htree, ?_, ?_, ?_⟩
    · cases free.toInt <;> rfl
    · exact width_numeral_pos free.toInt
    · cases free.toInt with
      | ofNat n => exact ⟨rfl, trivial, trivial⟩
      | negSucc n => exact ⟨rfl, trivial, ⟨rfl, trivial, trivial⟩, trivial⟩

/-- **Moving on to the free value.**  In a text without errors the fix gives the duplicate a value that
is greater and that no member of its enumeration had, and each member of an enumeration that does not
get its value from the duplicate keeps it. -/
theorem nextValue_moves (hclean : (Document.ofText version text).errors = [])
    (hid : d.id = descriptor.id) (h : builtin.Mended (.ofText version text) options d action applied)
    (hkey : action.key = .ofVariant descriptor.id "NextValue") :
    let before := Model.ofDocument (.ofText version text) options.catalog
    let after := Model.ofDocument applied.document options.catalog
    ∃ (enum member earlier : Site) (v free : Int64), Duplicate before d enum member earlier v ∧
      v < free ∧ (∀ s ∈ enum.enumMembers, before.constant? s ≠ some (.int free)) ∧
      List.Forall₂ (fun s s' => (s = member → after.constant? s' = some (.int free)) ∧
          (¬ before.DependsOn s member → after.constant? s' = before.constant? s))
        (before.root.subnodes.filter (·.kind == .enumMemberDeclaration))
        (after.root.subnodes.filter (·.kind == .enumMemberDeclaration)) := by
  intro before after
  obtain ⟨cancel, report, hreport, hd⟩ := h.reported
  obtain ⟨enum, member, earlier, v, hduplicate⟩ := exists_duplicate hreport hd hid
  obtain ⟨value, free, hgreater, hfresh, E⟩ := edit_of_free hclean hduplicate hid h hkey
  have hleast : Int64.minValue < free := Int64.lt_of_le_of_lt (Int64.minValue_le v) hgreater
  exact ⟨enum, member, earlier, v, free, hduplicate, hgreater, hfresh,
    E.constants_matched options.catalog fun s => hasValue_numeral hleast⟩

end Fix

/-- A member that takes the name of the one before it. -/
theorem useMember_keeps_pair :
    let document := Document.ofText 1 "enum E \x7b A = 1, B = 1 \x7d"
    let options : Options := {}
    ∃ d action applied, builtin.Mended document options d action applied ∧
      ∃ enum member earlier v, Duplicate (.ofDocument document options.catalog) d enum member earlier v ∧
        ¬ (Model.ofDocument document options.catalog).DependsOn earlier member := by
  intro document options
  obtain ⟨⟨d, action, applied⟩, hmem, hid, hkey, hsame⟩ : ∃ x ∈ builtin.mendings document options,
      x.1.id = descriptor.id ∧ x.2.1.key = .ofVariant descriptor.id "UseMember" ∧
        document.memberConstants options.catalog =
          x.2.2.document.memberConstants options.catalog := by
    decide +kernel
  have hdistinct : ∀ enum ∈ document.root.subnodes,
      enum.kind = .enumDeclaration → (enum.enumMembers.map identText?).Nodup := by
    decide +kernel
  have hmended := Registry.mended_of_mem hmem
  obtain ⟨enum, member, earlier, v, hduplicate, hiff⟩ :=
    useMember_keeps_iff (by decide +kernel) hdistinct hid hmended hkey
  exact ⟨d, action, applied, hmended, enum, member, earlier, v, hduplicate, hiff.1 hsame⟩

/-- **The fix can take away the value that it names**: here the earlier member gets its value from the
one that is mended. -/
theorem not_useMember_keeps : ¬ ∀ (version : Nat) (text : String) (options : Options) (d : Diagnostic)
    (action : CodeAction) (applied : Applied), (Document.ofText version text).errors = [] →
      (∀ enum ∈ (Document.ofText version text).root.subnodes,
        enum.kind = .enumDeclaration → (enum.enumMembers.map identText?).Nodup) →
      d.id = descriptor.id → builtin.Mended (.ofText version text) options d action applied →
      action.key = .ofVariant descriptor.id "UseMember" →
      (Document.ofText version text).memberConstants options.catalog =
        applied.document.memberConstants options.catalog := by
  intro h
  let text := "enum E \x7b A = B, B = 2, C = 2 \x7d"
  obtain ⟨⟨d, action, applied⟩, hmem, hid, hkey, hother⟩ :
      ∃ x ∈ builtin.mendings (.ofText 1 text) {},
        x.1.id = descriptor.id ∧ x.2.1.key = .ofVariant descriptor.id "UseMember" ∧
          (Document.ofText 1 text).memberConstants (Options.catalog {}) ≠
            x.2.2.document.memberConstants (Options.catalog {}) := by
    decide +kernel
  have hdistinct : ∀ enum ∈ (Document.ofText 1 text).root.subnodes,
      enum.kind = .enumDeclaration → (enum.enumMembers.map identText?).Nodup := by
    decide +kernel
  exact hother (h 1 text {} d action applied (by decide +kernel) hdistinct hid
    (Registry.mended_of_mem hmem) hkey)
end CodeMend.Rules.DuplicateValue

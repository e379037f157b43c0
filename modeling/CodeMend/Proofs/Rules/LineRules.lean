import CodeMend.Proofs.Edit.Blanks
import CodeMend.Proofs.Engine.Runs
import CodeMend.Proofs.Parser.Shape
import CodeMend.Proofs.Rules.Demands

/-!
# Rules about lines

A rule about lines makes demands on gaps, reports those that are not met and mends each report by the
splice that settles its gap.  `LineRule.Sound` says what this takes at a single node; from it follows
what mending everything at once comes to (`LineRule.Sound.converges`): nothing is skipped, only white
space and line breaks change, and there is nothing left to report.
-/

namespace CodeMend

open Tree Site

/-- A rule about lines, and what it demands at a node. -/
structure LineRule where
  descriptor : Descriptor
  kinds : List Kind
  findings : Context → Site → List Finding
  fix : Context → Diagnostic → Except EditError (List CodeAction)
  own : Options → Site → List Demand

/-- What is known of a context whose document is a text without errors. -/
structure Context.Sound (c : Context) : Prop where
  clean : Clean c.root
  shaped : c.root.tree.EveryNode Parse.Shaped
  root_node : c.root.isNode = true

theorem Context.options_ofDocument (d : Document) (options : Options) :
    (Context.ofDocument d options).options = options := rfl

theorem Context.sound_ofText {version : Nat} {text : String}
    (herr : (Document.ofText version text).errors = []) (options : Options) :
    (Context.ofDocument (.ofText version text) options).Sound where
  clean := Document.clean_root herr
  shaped := parse_shaped herr
  root_node := Document.tree_isNode version text

namespace LineRule

variable (r : LineRule)

def analyzer : Analyzer := .ofFindings r.descriptor r.kinds r.findings

def provider : FixProvider := ⟨[r.descriptor.id], fun c d => .ofEdits (r.fix c d)⟩

/-- The key under which the rule offers its fix. -/
def key : FixKey := ⟨r.descriptor.id⟩

/-- Does the rule look at a site? -/
def sees (s : Site) : Bool := s.isNode && r.kinds.contains s.kind

/-- What the rule demands at a site. -/
def demands (options : Options) (s : Site) : List Demand :=
  if r.sees s then r.own options s else []

/-- A finding is one of the rule, and its fix is one action with the splice. -/
def Mends (c : Context) (f : Finding) (s : Splice) : Prop :=
  f.descriptor = r.descriptor ∧
    ∀ severity, ∃ title, r.fix c (f.diagnostic c severity) =
      .ok [⟨title, r.key, .fix, ⟨c.document.version, [s]⟩⟩]

/-- What makes a rule about lines a sound one, all at single nodes: what it demands lies inside the
node and in none of its children, is found and mended, and does not depend on trivia. -/
structure Sound : Prop where
  kinds_nodup : r.kinds.Nodup
  proper : ∀ c : Context, c.Sound → ∀ s ∈ c.root.subtree, r.sees s = true →
    Proper (r.own c.options) s
  words : ∀ c : Context, c.Sound → ∀ s ∈ c.root.subtree, r.sees s = true →
    ∀ d ∈ r.own c.options s, d.1 ∈ c.root.words
  mends : ∀ c : Context, c.Sound → ∀ s ∈ c.root.subtree, r.sees s = true →
    List.Forall₂ (r.Mends c) (r.findings c s) (settleAll (r.own c.options s))
  stable : ∀ c c' : Context, c.Sound → c'.Sound → c.options = c'.options →
    ∀ s ∈ c.root.subtree, ∀ s' ∈ c'.root.subtree, r.sees s = true → s.shade = s'.shade →
      ∀ d' ∈ r.own c'.options s', ∃ d ∈ r.own c.options s, d.1.rank = d'.1.rank ∧ d.2 = d'.2

variable {r}

theorem mem_demands {options : Options} {s : Site} {d : Demand} (h : d ∈ r.demands options s) :
    r.sees s = true ∧ d ∈ r.own options s := by
  unfold demands at h
  split at h
  · next hsees => exact ⟨hsees, h⟩
  · cases h

namespace Sound

variable {c : Context}

/-- What a rule asks at a node is about gaps between its children. -/
theorem demands_proper (hr : r.Sound) (hc : c.Sound) {s : Site} (hs : s ∈ c.root.subtree) :
    Proper (r.demands c.options) s := by
  by_cases hsees : r.sees s = true
  · have hown : r.demands c.options s = r.own c.options s := if_pos hsees
    obtain ⟨hdistinct, hinside, hbetween⟩ := hr.proper c hc s hs hsees
    exact ⟨hown ▸ hdistinct, hown ▸ hinside, hown ▸ hbetween⟩
  · have hnone : r.demands c.options s = [] := if_neg hsees
    exact ⟨hnone ▸ List.Pairwise.nil, by simp [hnone], by simp [hnone]⟩

theorem reported_eq (hr : r.Sound) (hc : c.Sound) {severity : Severity}
    (hon : c.options.severity? r.descriptor = some severity) {s : Site}
    (hs : s ∈ c.root.subtree) (hsees : r.sees s = true) :
    r.analyzer.reported c s = (r.findings c s).map (·.diagnostic c severity) := by
  have hkind : s.kind ∈ r.kinds := by simpa using (Bool.and_eq_true_iff.1 hsees).2
  exact Analyzer.reported_ofFindings hr.kinds_nodup hon hkind
    ((List.forall₂_and_left _ _).1 (hr.mends c hc s hs hsees)).1

theorem reported_eq_nil {s : Site} (hnode : s.isNode = true) (hsees : r.sees s = false) :
    r.analyzer.reported c s = [] := by
  refine Analyzer.reported_of_notMem fun hkind => ?_
  have hkind : r.kinds.contains s.kind = true := List.contains_iff_mem.2 hkind
  rw [sees, hnode, hkind] at hsees
  cases hsees

/-- What the engine reports of one node is mended by the splices for the demands there, one
each. -/
theorem mends_one (hr : r.Sound) (hc : c.Sound) {registry : Registry}
    (hdispatch : ∀ d : Diagnostic, d.id = r.descriptor.id → registry.dispatch d = [r.provider])
    {severity : Severity} (hon : c.options.severity? r.descriptor = some severity) {s : Site}
    (hs : s ∈ c.root.subtree) :
    List.Forall₂ (registry.MendsBy c r.key) (if s.isNode then r.analyzer.reported c s else [])
      (settleAll (r.demands c.options s)) := by
  cases hsees : r.sees s with
  | true =>
      have hnode := (Bool.and_eq_true_iff.1 hsees).1
      rw [if_pos hnode, hr.reported_eq hc hon hs hsees, demands, if_pos hsees,
        List.forall₂_map_left_iff]
      refine (hr.mends c hc s hs hsees).imp fun f splice hmends => ?_
      obtain ⟨hdescriptor, hfix⟩ := hmends
      obtain ⟨title, hfix⟩ := hfix severity
      have hid : (f.diagnostic c severity).id = r.descriptor.id := congrArg Descriptor.id hdescriptor
      exact ⟨title, .fix, Registry.fixesIn_of_offer (hdispatch _ hid)
        (by simp only [provider, hfix, Offer.ofEdits])⟩
  | false =>
      have hnone : r.demands c.options s = [] := if_neg (by simp [hsees])
      rw [hnone]
      split
      · next hnode =>
        rw [reported_eq_nil hnode hsees]
        exact .nil
      · exact .nil

/-- The fixes for what the rule reports are the splices for its demands. -/
theorem mends_all (hr : r.Sound) (hc : c.Sound) {registry : Registry}
    (hdispatch : ∀ d : Diagnostic, d.id = r.descriptor.id → registry.dispatch d = [r.provider])
    {severity : Severity} (hon : c.options.severity? r.descriptor = some severity) :
    List.Forall₂ (registry.MendsBy c r.key) (c.root.subnodes.flatMap (r.analyzer.reported c))
      (settleAll (c.root.subtree.flatMap (r.demands c.options))) := by
  have hall : ∀ sites ⊆ c.root.subtree, List.Forall₂ (registry.MendsBy c r.key)
      ((sites.filter Site.isNode).flatMap (r.analyzer.reported c))
      (settleAll (sites.flatMap (r.demands c.options))) := by
    intro sites hsites
    induction sites with
    | nil => exact .nil
    | cons s sites ih =>
        obtain ⟨hs, hrest⟩ := List.cons_subset.1 hsites
        have hone := hr.mends_one hc hdispatch hon hs
        have happend := List.rel_append hone (ih hrest)
        rw [List.flatMap_cons, settleAll_append, List.filter_cons]
        split
        · next hnode => simpa [hnode] using happend
        · next hnode => simpa [hnode] using happend
  exact hall _ (List.Subset.refl _)

theorem sees_of_shade_eq {s s' : Site} (h : s.shade = s'.shade) : r.sees s = r.sees s' := by
  obtain ⟨-, hbare⟩ := Prod.mk.inj h
  have hkind : s.kind = s'.kind := by
    rw [Site.kind, Site.kind, ← kind_bare, hbare, kind_bare]
  have hnode (t : Tree) : t.isNode = !t.bare.isToken := by cases t <;> rfl
  rw [sees, sees, hkind, Site.isNode, Site.isNode, hnode, hnode, hbare]

/-- What was demanded of a document is not reported where it is met. -/
theorem unreported (hr : r.Sound) (hc : c.Sound) {c' : Context} (hc' : c'.Sound)
    (hoptions : c.options = c'.options) (hshade : c.root.shade = c'.root.shade)
    {severity : Severity} (hon : c.options.severity? r.descriptor = some severity) {s' : Site}
    (hs' : s' ∈ c'.root.subnodes)
    (hmet : ∀ a' ∈ c'.root.words, ∀ d ∈ c.root.subtree.flatMap (r.demands c.options),
      d.1.rank = a'.rank → a'.gapAfter.kind.isUnmet d.2 = false) :
    r.analyzer.reported c' s' = [] := by
  obtain ⟨hmem, hnode⟩ := List.mem_filter.1 hs'
  have hsig {s : Site} (h : s.isNode = true) : s.isSignificant = true := by
    obtain ⟨tree, start, above, origin⟩ := s
    cases tree with
    | token k text => cases h
    | node k cs => rfl
  cases hsees : r.sees s' with
  | false => exact reported_eq_nil hnode hsees
  | true =>
      obtain ⟨s, hs, hseen⟩ := exists_shade (hsig hc.root_node) (hsig hc'.root_node) hshade hmem (hsig hnode)
      have hsettled : settleAll (r.own c'.options s') = [] := by
        refine List.flatMap_eq_nil_iff.2 fun d' hd' => ?_
        obtain ⟨d, hd, hrank, hwant⟩ := hr.stable c c' hc hc' hoptions s hs s' hmem
          (sees_of_shade_eq hseen ▸ hsees) hseen d' hd'
        have hdemand : d ∈ r.demands c.options s := by
          rw [demands, if_pos (sees_of_shade_eq hseen ▸ hsees)]
          exact hd
        have hunmet := hmet d'.1 (hr.words c' hc' s' hmem hsees d' hd') d
          (List.mem_flatMap.2 ⟨s, hs, hdemand⟩) hrank
        rw [Gap.settle?_of_met (hwant ▸ hunmet)]
        rfl
      have hfindings := hr.mends c' hc' s' hmem hsees
      rw [hsettled, List.forall₂_nil_right_iff] at hfindings
      rw [hr.reported_eq hc' (hoptions ▸ hon) hmem hsees, hfindings, List.map_nil]

theorem shade_root (version version' : Nat) {text text' : String}
    (h : (parse text).1.bare = (parse text').1.bare) :
    (Document.ofText version text).root.shade = (Document.ofText version' text').root.shade := by
  rw [shade, shade, Document.rank_root, Document.rank_root]
  exact congrArg (Prod.mk 0) h

/-- **Rules about lines converge at once.**  If a registry has a sound rule about lines, and nothing
else under its id, mending all its reports on a text without errors skips none and leaves all tokens
but white space and line breaks as they are; and on the new text there is nothing to report.  A rule
that asks for blank lines can do so as long as the new text is one that offsets reach all of. -/
theorem converges (hr : r.Sound) {registry : Registry} {others others' : List Analyzer}
    (hrules : registry.analyzers = others ++ r.analyzer :: others')
    (hcalm : ∀ a ∈ registry.analyzers, a.IsCalm)
    (hothers : ∀ b ∈ others ++ others', b.descriptors.any (·.id == r.descriptor.id) = false)
    (hdispatch : ∀ d : Diagnostic, d.id = r.descriptor.id → registry.dispatch d = [r.provider])
    {version : Nat} {text : String} (herr : (Document.ofText version text).errors = [])
    {options : Options} (hon : options.isEnabled r.descriptor = true) {cancel : Cancellation}
    (hcancel : cancel.requested = false)
    (hfits : (∀ s, ∀ d ∈ r.own options s, d.2 = false) ∨
      ∀ all p, registry.batch (.ofText version text) r.descriptor.id r.key options cancel = .ok all →
        all.patch? = some p → p.Fits (.ofText version text)) (stamp : Nat) :
    ∃ f, registry.fixAll (.ofText version text) r.descriptor.id r.key options cancel stamp = .ok f ∧
      f.skipped = 0 ∧
      f.document.tree.tokens = (parse f.document.text).1.tokens ∧
      f.document.tree.tokens.filter isKept = (parse text).1.tokens.filter isKept ∧
      ∀ version', ∃ report,
        registry.analyze (.ofText version' f.document.text) options cancel = .ok report ∧
        ∀ d ∈ report.diagnostics, d.id ≠ r.descriptor.id := by
  obtain ⟨severity, hseverity⟩ := Option.isSome_iff_exists.1 hon
  let c := Context.ofDocument (.ofText version text) options
  have hc : c.Sound := Context.sound_ofText herr options
  have hid : ∀ d ∈ r.analyzer.descriptors, d.id = r.descriptor.id := by
    simp [analyzer, Analyzer.ofFindings]
  -- every finding has a splice, and the splices settle the gaps of all demands
  obtain ⟨report, hreport, hfound⟩ :=
    Registry.analyzeIn_reported (c := c) hcancel hcalm hrules hid hothers
  obtain ⟨splices, hfixes, hperm⟩ :=
    List.perm_comp_forall₂ hfound (hr.mends_all hc hdispatch hseverity)
  have hdistinct : Distinct (c.root.subtree.flatMap (r.demands c.options)) :=
    demands_distinct fun s hs => hr.demands_proper hc hs
  have hwords : ∀ d ∈ c.root.subtree.flatMap (r.demands c.options), d.1 ∈ c.root.words := by
    intro d hd
    obtain ⟨s, hs, hd⟩ := List.mem_flatMap.1 hd
    obtain ⟨hsees, hd⟩ := mem_demands hd
    exact hr.words c hc s hs hsees d hd
  -- the new text can be reached by offsets
  have hgrowth : (∀ s ∈ splices, s.growth ≤ 0) ∨
      ((Document.ofText version text).length : Int) + Patch.totalGrowth splices ≤ Patch.maxOffset := by
    rcases hfits with hnone | hfits
    · refine Or.inl fun s hs => settleAll_growth_le (fun d hd => ?_) s (hperm.mem_iff.1 hs)
      obtain ⟨n, -, hd⟩ := List.mem_flatMap.1 hd
      exact hnone n d (mem_demands hd).2
    · by_cases hempty : splices = []
      · simp [hempty]
      · exact Or.inr (hfits _ ⟨version, splices⟩ (Registry.batch_eq hreport hfixes)
          (if_neg (by simpa using hempty))).total
  -- they are made at once, and what is demanded is met in the new tree
  obtain ⟨o, ho, hmarks, htokens, hkept, herr', hbare, hmet⟩ :=
    Document.exists_met herr hwords hdistinct hperm hgrowth stamp
  obtain ⟨f, hf, hskipped, htree⟩ := Registry.fixAll_eq hreport hfixes ho hmarks herr'
  have htext : f.document.text = o.document.text := congrArg Tree.text htree
  refine ⟨f, hf, hskipped, ?_⟩
  rw [htext, htree]
  refine ⟨htokens, hkept, fun version' => ?_⟩
  let c' := Context.ofDocument (.ofText version' o.document.text) options
  have hc' : c'.Sound := Context.sound_ofText herr' options
  -- a finding in the new tree would be about a demand that is met
  obtain ⟨report', hreport', hfound'⟩ :=
    Registry.analyzeIn_reported (c := c') hcancel hcalm hrules hid hothers
  rw [Registry.analyze]
  refine ⟨report', hreport', fun d hd hdid => ?_⟩
  have hmem : d ∈ c'.root.subnodes.flatMap (r.analyzer.reported c') :=
    hfound'.mem_iff.1 (List.mem_filter.2 ⟨hd, beq_iff_eq.2 hdid⟩)
  obtain ⟨s', hs', hd⟩ := List.mem_flatMap.1 hmem
  have hshade : c.root.shade = c'.root.shade := shade_root version version' hbare.symm
  have hoptions : c.options = c'.options :=
    (Context.options_ofDocument _ options).trans (Context.options_ofDocument _ options).symm
  have hnone := hr.unreported hc hc' hoptions hshade hseverity hs' (hmet version')
  rw [hnone] at hd
  exact List.not_mem_nil hd

end Sound

end LineRule

end CodeMend

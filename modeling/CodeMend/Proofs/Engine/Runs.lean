import Mathlib.Data.List.Forall2
import Mathlib.Data.List.Perm.Basic
import CodeMend.Proofs.Edit.Columns
import CodeMend.Rules.Builtin

/-!
# Runs of the engine

What a run over a document reports under the id of one rule are the findings of that rule at each
node, in some order (`Registry.analyzeIn_reported`), as long as no rule breaks down.  If the fix for
each of them is one splice, and the splices can be applied together, then mending all of them at once
does just that (`Registry.fixAll_eq`).
-/

namespace CodeMend

/-! ## Analysis -/

/-- What an analyzer reports at a node. -/
def Analyzer.reported (a : Analyzer) (c : Context) (s : Site) : List Diagnostic :=
  if a.isEnabled c.options then
    (List.replicate (a.kinds.count s.kind) ((a.visit c s).findings.filterMap (a.diagnostic? c))).flatten
  else []

/-- An analyzer that never breaks down. -/
def Analyzer.IsCalm (a : Analyzer) : Prop := ∀ c s, (a.visit c s).breakdown = none

/-- An analyzer made of its findings has no way to break down. -/
theorem Analyzer.ofFindings_calm (d : Descriptor) (kinds : List Kind)
    (findings : Context → Site → List Finding) : (Analyzer.ofFindings d kinds findings).IsCalm :=
  fun _ _ => rfl

namespace Progress

variable {c : Context} {s : Site}

/-- The analysis after some more was found. -/
def add (p : Progress) (ds : List Diagnostic) : Progress :=
  { p with diagnostics := p.diagnostics ++ ds }

/-- Finding nothing changes nothing. -/
theorem add_nil (p : Progress) : p.add [] = p := by simp [add]

/-- What is found twice in a row is found at once. -/
theorem add_add (p : Progress) (ds es : List Diagnostic) :
    (p.add ds).add es = p.add (ds ++ es) := by
  simp [add]

/-- A calm analyzer adds what it states at a node. -/
theorem visit_calm {p : Progress} (hp : p.broken = []) {a : Analyzer} (ha : a.IsCalm) (i : Nat) :
    p.visit c s i a = p.add ((a.visit c s).findings.filterMap (a.diagnostic? c)) := by
  simp [visit, hp, ha c s, add]

/-- It does so once for every time its kinds list the kind of the node. -/
theorem visits_calm {p : Progress} (hp : p.broken = []) {a : Analyzer} (ha : a.IsCalm) (i : Nat) :
    p.visits c s i a = p.add (List.replicate (a.kinds.count s.kind)
      ((a.visit c s).findings.filterMap (a.diagnostic? c))).flatten := by
  unfold visits
  generalize a.kinds.count s.kind = n
  induction n generalizing p with
  | zero => exact (add_nil p).symm
  | succ n ih =>
      rw [List.replicate_succ, List.foldl_cons, visit_calm hp ha, ih (p := p.add _) hp, add_add,
        List.replicate_succ, List.flatten_cons]

/-- At a node, calm analyzers add what they report in their order. -/
theorem node_calm {p : Progress} (hp : p.broken = []) {analyzers : List Analyzer}
    (h : ∀ a ∈ analyzers, a.IsCalm) :
    node c analyzers p s = p.add (analyzers.flatMap (·.reported c s)) := by
  have hfold : ∀ (n : Nat) (p : Progress), p.broken = [] →
      (analyzers.zipIdx n).foldl
        (fun p e => if e.1.isEnabled c.options then p.visits c s e.2 e.1 else p) p =
      p.add (analyzers.flatMap (·.reported c s)) := by
    induction analyzers with
    | nil => exact fun _ p _ => (add_nil p).symm
    | cons a as ih =>
        intro n p hp
        have hrest := ih fun b hb => h b (List.mem_cons_of_mem a hb)
        rw [List.zipIdx_cons, List.foldl_cons, List.flatMap_cons]
        by_cases hon : a.isEnabled c.options = true
        · rw [if_pos hon, visits_calm hp (h a List.mem_cons_self), hrest _ (p.add _) hp, add_add,
            Analyzer.reported, if_pos hon]
        · rw [if_neg hon, hrest _ p hp, Analyzer.reported, if_neg hon, List.nil_append]
  exact hfold 0 p hp

/-- Over all nodes, calm analyzers add what they report at each, by induction on the nodes. -/
theorem foldl_calm {p : Progress} (hp : p.broken = []) {analyzers : List Analyzer}
    (h : ∀ a ∈ analyzers, a.IsCalm) (nodes : List Site) :
    nodes.foldl (node c analyzers) p =
      p.add (nodes.flatMap fun s => analyzers.flatMap (·.reported c s)) := by
  induction nodes generalizing p with
  | nil => exact (add_nil p).symm
  | cons s nodes ih =>
      rw [List.foldl_cons, node_calm hp h, ih (p := p.add _) hp, add_add, List.flatMap_cons]

end Progress

namespace Diagnostic

/-- To sort findings is to rearrange them. -/
theorem sort_perm (ds : List Diagnostic) : (sort ds).Perm ds := sortBy_perm ds

end Diagnostic

/-- A diagnostic has the id of one of the analyzer's descriptors. -/
theorem Analyzer.id_of_diagnostic? {a : Analyzer} {c : Context} {f : Finding} {d : Diagnostic}
    (h : a.diagnostic? c f = some d) :
    d.id = f.descriptor.id ∧ a.descriptors.any (·.id == d.id) = true := by
  change (if a.descriptors.any (·.id == f.descriptor.id) = true then some () else none :
    Option Unit).bind _ = some d at h
  by_cases hown : a.descriptors.any (·.id == f.descriptor.id) = true
  · cases hseverity : c.options.severity? f.descriptor with
    | none => simp [hown, hseverity] at h
    | some severity =>
        simp only [hown, hseverity, if_true] at h
        obtain rfl := Option.some.inj h
        exact ⟨rfl, hown⟩
  · simp [hown] at h

/-- A diagnostic says what was found. -/
theorem Analyzer.diagnostic?_eq {a : Analyzer} {c : Context} {f : Finding} {d : Diagnostic}
    (h : a.diagnostic? c f = some d) :
    ∃ severity, d = ⟨f.descriptor.id, severity, f.descriptor.format f.arguments, c.document.version,
      f.span, c.lines.position f.span.start, f.properties⟩ := by
  change (if a.descriptors.any (·.id == f.descriptor.id) = true then some () else none :
    Option Unit).bind _ = some d at h
  obtain ⟨-, -, h⟩ := Option.bind_eq_some_iff.1 h
  obtain ⟨severity, -, h⟩ := Option.bind_eq_some_iff.1 h
  exact ⟨severity, (Option.some.inj h).symm⟩

/-- What an analyzer reports has the id of one of its descriptors. -/
theorem Analyzer.id_of_mem_reported {a : Analyzer} {c : Context} {s : Site} {d : Diagnostic}
    (h : d ∈ a.reported c s) : a.descriptors.any (·.id == d.id) = true := by
  unfold reported at h
  split at h
  · obtain ⟨ds, hds, hd⟩ := List.mem_flatten.1 h
    rw [(List.mem_replicate.1 hds).2] at hd
    obtain ⟨f, -, hf⟩ := List.mem_filterMap.1 hd
    exact (id_of_diagnostic? hf).2
  · cases h

/-- The diagnostic for a finding that is reported. -/
def Finding.diagnostic (f : Finding) (c : Context) (severity : Severity) : Diagnostic where
  id := f.descriptor.id
  severity := severity
  message := f.descriptor.format f.arguments
  version := c.document.version
  span := f.span
  position := c.lines.position f.span.start
  properties := f.properties

/-- At other kinds of nodes an analyzer reports nothing. -/
theorem Analyzer.reported_of_notMem {a : Analyzer} {c : Context} {s : Site}
    (h : s.kind ∉ a.kinds) : a.reported c s = [] := by
  rw [reported, List.count_eq_zero.2 h]
  simp

/-- What a rule of one descriptor reports, if that is switched on. -/
theorem Analyzer.reported_ofFindings {d : Descriptor} {kinds : List Kind} (hkinds : kinds.Nodup)
    {findings : Context → Site → List Finding} {c : Context} {severity : Severity}
    (hon : c.options.severity? d = some severity) {s : Site} (hkind : s.kind ∈ kinds)
    (hown : ∀ f ∈ findings c s, f.descriptor = d) :
    (ofFindings d kinds findings).reported c s =
      (findings c s).map (·.diagnostic c severity) := by
  have henabled : (ofFindings d kinds findings).isEnabled c.options = true := by
    simp [isEnabled, ofFindings, Options.isEnabled, hon]
  have hdiagnostics : (findings c s).filterMap ((ofFindings d kinds findings).diagnostic? c) =
      (findings c s).map (·.diagnostic c severity) := by
    rw [← List.filterMap_eq_map]
    refine List.filterMap_congr fun f hf => ?_
    have hany : (ofFindings d kinds findings).descriptors.any (·.id == f.descriptor.id) = true := by
      simp [ofFindings, hown f hf]
    show (if (ofFindings d kinds findings).descriptors.any (·.id == f.descriptor.id) = true
      then some () else none : Option Unit).bind _ = _
    rw [if_pos hany]
    simp [hown f hf, hon, Finding.diagnostic]
  rw [reported, if_pos henabled]
  show (List.replicate (kinds.count s.kind) ((findings c s).filterMap _)).flatten = _
  rw [hdiagnostics, hkinds.count, if_pos hkind]
  simp

/-- A result that is there is a success. -/
theorem eq_ok_of_toOption {ε α : Type} {x : Except ε α} {a : α} (h : x.toOption = some a) :
    x = .ok a := by
  cases x with
  | error e => cases h
  | ok b => exact congrArg _ (Option.some.inj h)

namespace Registry

variable {r : Registry} {c : Context} {cancel : Cancellation}

/-- **What a run reports under an id** is what the rule with that id reports at each node. -/
theorem analyzeIn_reported (hcancel : cancel.requested = false)
    (hcalm : ∀ a ∈ r.analyzers, a.IsCalm) {a : Analyzer} {others others' : List Analyzer}
    (hrules : r.analyzers = others ++ a :: others') {id : String}
    (hid : ∀ d ∈ a.descriptors, d.id = id)
    (hothers : ∀ b ∈ others ++ others', b.descriptors.any (·.id == id) = false) :
    ∃ report, r.analyzeIn c cancel = .ok report ∧
      (report.diagnostics.filter (·.id == id)).Perm (c.root.subnodes.flatMap (a.reported c)) := by
  refine ⟨_, by simp only [analyzeIn, Cancellation.check, hcancel]; rfl, ?_⟩
  have hnone (b : Analyzer) (hb : b ∈ others ++ others') (s : Site) :
      (b.reported c s).filter (·.id == id) = [] := by
    refine List.filter_eq_nil_iff.2 fun d hd hdid => ?_
    have hany := Analyzer.id_of_mem_reported hd
    rw [beq_iff_eq.1 hdid, hothers b hb] at hany
    cases hany
  have hall (s : Site) : (a.reported c s).filter (·.id == id) = a.reported c s := by
    refine List.filter_eq_self.2 fun d hd => ?_
    obtain ⟨descriptor, hdescriptor, hdid⟩ := List.any_eq_true.1 (Analyzer.id_of_mem_reported hd)
    rw [hid descriptor hdescriptor] at hdid
    exact beq_iff_eq.2 (beq_iff_eq.1 hdid).symm
  have hone (s : Site) :
      (r.analyzers.flatMap (·.reported c s)).filter (·.id == id) = a.reported c s := by
    rw [List.filter_flatMap, hrules, List.flatMap_append, List.flatMap_cons, hall,
      List.flatMap_eq_nil_iff.2 fun b hb => hnone b (List.mem_append_left _ hb) s,
      List.flatMap_eq_nil_iff.2 fun b hb => hnone b (List.mem_append_right _ hb) s]
    simp
  refine ((Diagnostic.sort_perm _).filter _).trans (List.Perm.of_eq ?_)
  rw [Progress.foldl_calm rfl hcalm]
  show List.filter _ ([] ++ _) = _
  rw [List.nil_append, List.filter_flatMap]
  exact List.flatMap_congr fun s _ => hone s

/-- **What a run reports was found** by one of the rules at one of the nodes. -/
theorem exists_finding (hcalm : ∀ a ∈ r.analyzers, a.IsCalm) {report : Report}
    (hreport : r.analyzeIn c cancel = .ok report) {d : Diagnostic} (hd : d ∈ report.diagnostics) :
    ∃ s ∈ c.root.subnodes, ∃ a ∈ r.analyzers, s.kind ∈ a.kinds ∧
      ∃ f ∈ (a.visit c s).findings, a.diagnostic? c f = some d := by
  obtain ⟨_, -, hrun⟩ : ∃ u, cancel.check = .ok u ∧ Except.ok (ε := Failure) ⟨Diagnostic.sort
      (c.root.subnodes.foldl (Progress.node c r.analyzers) {}).diagnostics,
      (c.root.subnodes.foldl (Progress.node c r.analyzers) {}).faults⟩ = .ok report := by
    unfold analyzeIn at hreport
    cases hcheck : cancel.check with
    | error e =>
        rw [hcheck] at hreport
        cases hreport
    | ok u =>
        rw [hcheck] at hreport
        exact ⟨u, rfl, hreport⟩
  obtain rfl := Except.ok.inj hrun
  have hmem := (Diagnostic.sort_perm _).mem_iff.1 hd
  rw [Progress.foldl_calm rfl hcalm] at hmem
  have hmem : d ∈ [] ++ c.root.subnodes.flatMap fun s => r.analyzers.flatMap (·.reported c s) := hmem
  rw [List.nil_append] at hmem
  obtain ⟨s, hs, hmem⟩ := List.mem_flatMap.1 hmem
  obtain ⟨a, ha, hmem⟩ := List.mem_flatMap.1 hmem
  unfold Analyzer.reported at hmem
  split at hmem
  · obtain ⟨ds, hds, hd⟩ := List.mem_flatten.1 hmem
    obtain ⟨hcount, rfl⟩ := List.mem_replicate.1 hds
    obtain ⟨f, hf, hdiagnostic⟩ := List.mem_filterMap.1 hd
    exact ⟨s, hs, a, ha, List.count_pos_iff.1 (Nat.pos_of_ne_zero hcount), f, hf, hdiagnostic⟩
  · cases hmem

/-- What a run reports under an id was found by the rule with that id. -/
theorem exists_finding_of_id (hcalm : ∀ a ∈ r.analyzers, a.IsCalm) {a : Analyzer}
    {others others' : List Analyzer} (hrules : r.analyzers = others ++ a :: others') {id : String}
    (hothers : ∀ b ∈ others ++ others', b.descriptors.any (·.id == id) = false) {report : Report}
    (hreport : r.analyzeIn c cancel = .ok report) {d : Diagnostic} (hd : d ∈ report.diagnostics)
    (hid : d.id = id) :
    ∃ s ∈ c.root.subnodes, s.kind ∈ a.kinds ∧
      ∃ f ∈ (a.visit c s).findings, a.diagnostic? c f = some d := by
  obtain ⟨s, hs, b, hb, hkind, f, hf, hdiagnostic⟩ := exists_finding hcalm hreport hd
  have hown := (Analyzer.id_of_diagnostic? hdiagnostic).2
  have hsame : b = a := by
    by_contra hne
    rw [hrules] at hb
    have hother : b ∈ others ++ others' := by
      simpa [hne] using hb
    rw [hid, hothers b hother] at hown
    cases hown
  subst hsame
  exact ⟨s, hs, hkind, f, hf, hdiagnostic⟩

/-- The actions for a diagnostic that one provider mends are what it offers. -/
theorem fixesIn_eq {d : Diagnostic} {p : FixProvider} (hp : r.dispatch d = [p])
    {actions : List CodeAction} (h : r.fixesIn c d = .ok actions) :
    (p.offer c d).settle d.id = .ok actions := by
  unfold fixesIn at h
  rw [hp] at h
  cases hoffer : (p.offer c d).settle d.id with
  | error e => simp [hoffer, bind, Except.bind] at h
  | ok offered =>
      simp only [List.mapM_cons, List.mapM_nil, hoffer, bind, Except.bind, pure, Except.pure,
        List.flatten_cons, List.flatten_nil, List.append_nil] at h
      split at h
      · cases h
      · exact h

/-! ## Mending one diagnostic -/

/-- An analysis of the document reports the diagnostic, the action is on offer for it, and applying the
action succeeds. -/
structure Mended (r : Registry) (document : Document) (options : Options) (d : Diagnostic)
    (action : CodeAction) (applied : Applied) : Prop where
  reported : ∃ cancel report, r.analyze document options cancel = .ok report ∧ d ∈ report.diagnostics
  offered : ∃ actions, r.fixes document d options = .ok actions ∧ action ∈ actions
  done : ∃ cancel stamp, action.apply document options cancel stamp = .ok applied

/-- What can be mended in a document: each diagnostic with each action and what comes of it. -/
def mendings (r : Registry) (document : Document) (options : Options) :
    List (Diagnostic × CodeAction × Applied) :=
  ((r.analyze document options {}).toOption.map Report.diagnostics).getD [] |>.flatMap fun d =>
    ((r.fixes document d options).toOption.getD []).filterMap fun action =>
      (action.apply document options {} document.version).toOption.map fun applied => (d, action, applied)

/-- An element of a list that may be missing comes from the list. -/
theorem mem_getD_nil {α : Type} {x : Option (List α)} {a : α} (h : a ∈ x.getD []) :
    ∃ as, x = some as ∧ a ∈ as := by
  cases x with
  | none => cases h
  | some as => exact ⟨as, rfl, h⟩

/-- What stands among the mendings has been reported, is on offer and was applied. -/
theorem mended_of_mem {document : Document} {options : Options} {d : Diagnostic} {action : CodeAction}
    {applied : Applied} (h : (d, action, applied) ∈ r.mendings document options) :
    r.Mended document options d action applied := by
  obtain ⟨d', hd, h⟩ := List.mem_flatMap.1 h
  obtain ⟨action', haction, h⟩ := List.mem_filterMap.1 h
  obtain ⟨applied', happlied, heq⟩ := Option.map_eq_some_iff.1 h
  obtain ⟨rfl, rfl, rfl⟩ : d' = d ∧ action' = action ∧ applied' = applied := by simpa using heq
  obtain ⟨diagnostics, hdiagnostics, hd⟩ := mem_getD_nil hd
  obtain ⟨report, hreport, rfl⟩ := Option.map_eq_some_iff.1 hdiagnostics
  obtain ⟨actions, hactions, haction⟩ := mem_getD_nil haction
  exact ⟨⟨{}, report, eq_ok_of_toOption hreport, hd⟩, ⟨actions, eq_ok_of_toOption hactions, haction⟩,
    ⟨{}, document.version, eq_ok_of_toOption happlied⟩⟩

/-- What is on offer for a diagnostic is found in the context of the document. -/
theorem fixesIn_of_fixes {document : Document} {options : Options} {d : Diagnostic}
    {actions : List CodeAction} (h : r.fixes document d options = .ok actions) :
    r.fixesIn (.ofDocument document options) d = .ok actions := by
  unfold Registry.fixes at h
  split at h
  · exact h
  · cases h

/-- A diagnostic that is on offer to be mended is one of the document that was analysed. -/
theorem Mended.fixesIn {document : Document} {options : Options} {d : Diagnostic} {action : CodeAction}
    {applied : Applied} (h : r.Mended document options d action applied) :
    ∃ actions, r.fixesIn (.ofDocument document options) d = .ok actions ∧ action ∈ actions := by
  obtain ⟨actions, hactions, haction⟩ := h.offered
  exact ⟨actions, fixesIn_of_fixes hactions, haction⟩

/-! ## Mending everything -/

/-- The only provider for a diagnostic and its only action. -/
theorem fixesIn_of_offer {d : Diagnostic} {p : FixProvider} (hp : r.dispatch d = [p])
    {a : CodeAction} (ha : p.offer c d = .actions [a]) : r.fixesIn c d = .ok [a] := by
  simp [fixesIn, hp, ha, Offer.settle, Offer.outcome, FixKey.repeated?, bind, Except.bind, pure,
    Except.pure]

/-- The fix for `d` is one action, under the given key, with one splice. -/
def MendsBy (r : Registry) (c : Context) (key : FixKey) (d : Diagnostic) (s : Splice) : Prop :=
  ∃ title kind, r.fixesIn c d = .ok [⟨title, key, kind, ⟨c.document.version, [s]⟩⟩]

/-- Looking up the fix of each finding by its key gives the action with its splice. -/
theorem mapM_fixes {key : FixKey} {found : List Diagnostic} {splices : List Splice}
    (h : List.Forall₂ (r.MendsBy c key) found splices) :
    ∃ actions : List CodeAction,
      (found.mapM fun d => do return (← r.fixesIn c d).find? (fun a => a.key == key)) =
        Except.ok (actions.map some) ∧
      actions.map CodeAction.patch = splices.map fun s => ⟨c.document.version, [s]⟩ := by
  induction h with
  | nil => exact ⟨[], rfl, rfl⟩
  | @cons d s _ _ hfirst _ ih =>
      obtain ⟨title, kind, hfixes⟩ := hfirst
      obtain ⟨actions, hactions, hpatches⟩ := ih
      refine ⟨⟨title, key, kind, ⟨c.document.version, [s]⟩⟩ :: actions, ?_, by simp [hpatches]⟩
      rw [List.mapM_cons, hfixes, hactions]
      simp [bind, Except.bind, pure, Except.pure]

/-- Patches of one splice each are merged to a patch of all splices. -/
theorem merge_singles (version : Nat) (s : Splice) (ss : List Splice) :
    Patch.merge ((s :: ss).map fun s => ⟨version, [s]⟩) = .ok (some ⟨version, s :: ss⟩) := by
  have hsame : (ss.map fun s => (⟨version, [s]⟩ : Patch)).find? (fun q => q.version != version) =
      none := by
    simp
  simp only [List.map_cons, Patch.merge, hsame, List.flatMap_cons, List.flatMap_map]
  simp

end Registry

/-- None of the rules breaks down. -/
theorem Rules.builtin_calm : ∀ a ∈ Rules.builtin.analyzers, a.IsCalm := by
  simp only [Rules.builtin, List.forall_mem_cons]
  refine ⟨?_, ?_, ?_, ?_, ?_, ?_, ?_, by simp⟩ <;> exact Analyzer.ofFindings_calm _ _ _

/-! ## Mending once -/

/-- An offer with an action in it was computed without a refusal. -/
theorem Offer.of_settle_ofEdits {id : String} {x : Except EditError (List CodeAction)}
    {actions : List CodeAction} (h : (Offer.ofEdits x).settle id = .ok actions)
    (hne : actions ≠ []) : x = .ok actions := by
  cases x with
  | error e =>
      obtain rfl : [] = actions := Except.ok.inj h
      exact absurd rfl hne
  | ok offered => exact congrArg _ (Except.ok.inj h)

/-- A patch that marks nothing and leaves no errors is mended with as it is. -/
theorem Patch.mend_eq {p : Patch} {d : Document} {stamp : Nat} {o : Outcome}
    (ho : p.apply d stamp = .ok o) (hmarks : o.annotations = [])
    (herr : (parse o.document.text).2 = []) (title : String) (options : Options)
    (cancel : Cancellation) :
    ∃ a, p.mend title d options cancel stamp = .ok a ∧ a.document.tree = o.document.tree := by
  have hspans : o.formatterSpans = [] := by
    simp [Outcome.formatterSpans, Outcome.spansOf, hmarks]
  refine ⟨⟨{ o.document with errors := [] }, o.renameTarget?⟩, ?_, rfl⟩
  simp [mend, ho, Failure.ofEdit, hspans, Indent.patch, Indent.targets, Indent.splices, Patch.isEmpty, herr, bind,
    Except.bind, pure, Except.pure]

/-- **What it takes to mend a document**: the patch applies, the lines that it marked are indented,
and the tree is what the two leave. -/
theorem Patch.mend_ok {p : Patch} {d : Document} {stamp : Nat} {a : Applied} {title : String}
    {options : Options} {cancel : Cancellation} (h : p.mend title d options cancel stamp = .ok a) :
    ∃ o indent, p.apply d stamp = .ok o ∧
      Indent.patch options.config.formatterSettings o.document o.formatterSpans cancel = .ok indent ∧
      (indent.splices = [] ∧ a.document.tree = o.document.tree ∧ a.renameTarget = o.renameTarget? ∨
        indent.splices ≠ [] ∧ ∃ o', indent.apply o.document stamp = .ok o' ∧
          a.document.tree = o'.document.tree ∧
          a.renameTarget = o.renameTarget?.map indent.mapSpan) ∧
      (options.config.fixSettings.validates = true →
        (parse a.document.text).2.length ≤ d.errors.length) := by
  unfold mend at h
  obtain ⟨o, ho, h⟩ := Tree.bind_eq_ok h
  obtain ⟨indent, hindent, h⟩ := Tree.bind_eq_ok h
  refine ⟨o, indent, Failure.ofEdit_eq_ok_iff.1 ho, hindent, ?_⟩
  dsimp only at h
  have hchecked {indented : Document} {target : Option Span} {failure : Failure}
      (h : (if (options.config.fixSettings.validates &&
          decide (d.errors.length < (parse indented.text).2.length)) = true then
            (throw failure >>= fun _ : Unit => pure ⟨{ indented with
              errors := (parse indented.text).2 }, target⟩ : Except Failure Applied)
          else pure ⟨{ indented with errors := (parse indented.text).2 }, target⟩) = .ok a) :
      (a.document.tree = indented.tree ∧ a.renameTarget = target) ∧
        (options.config.fixSettings.validates = true →
          (parse a.document.text).2.length ≤ d.errors.length) := by
    split at h
    · cases h
    · next hvalid =>
      obtain rfl := Except.ok.inj h
      refine ⟨⟨rfl, rfl⟩, fun hon => ?_⟩
      rw [hon, Bool.true_and, decide_eq_true_eq] at hvalid
      exact Nat.le_of_not_lt hvalid
  split at h
  · next hempty =>
    obtain ⟨⟨htree, htarget⟩, hvalid⟩ := hchecked h
    exact ⟨Or.inl ⟨List.isEmpty_iff.1 hempty, htree, htarget.trans Option.map_id'⟩, hvalid⟩
  · next hsome =>
    obtain ⟨o', ho', h⟩ := Tree.bind_eq_ok h
    obtain ⟨⟨htree, htarget⟩, hvalid⟩ :
      (a.document.tree = o'.document.tree ∧ a.renameTarget = _) ∧ _ := hchecked h
    have hne : indent.splices ≠ [] := fun h => hsome (List.isEmpty_iff.2 h)
    exact ⟨Or.inr ⟨hne, o', Indent.settle_ok ho', htree, htarget⟩, hvalid⟩

/-- A patch without splices leaves the tree. -/
theorem Patch.tree_of_apply_empty {version : Nat} {d : Document} {stamp : Nat} {o : Outcome}
    (h : (⟨version, []⟩ : Patch).apply d stamp = .ok o) : o.document.tree = d.tree := by
  unfold Patch.apply Patch.validate at h
  split at h
  · cases h
  · obtain rfl := Except.ok.inj h
    rfl

/-- Mending with one splice that asks for no indentation makes that splice. -/
theorem Patch.mend_single {version : Nat} {s : Splice} {d : Document} {stamp : Nat} {a : Applied}
    {title : String} {options : Options} {cancel : Cancellation}
    (hmarks : ∀ x ∈ s.replacement.annotations, x.mark ≠ .formatter)
    (h : (⟨version, [s]⟩ : Patch).mend title d options cancel stamp = .ok a) :
    d.tree.splice s = .ok a.document.tree ∧ a.renameTarget =
      ((s.replacement.annotations.map (·.shift s.span.start)).filter
        (·.mark == .renameTarget)).head?.map Annotation.span := by
  obtain ⟨o, indent, ho, hindent, htree, -⟩ := mend_ok h
  obtain ⟨-, hsplice, hannotations⟩ := apply_single ho
  have hspans : o.formatterSpans = [] := by
    rw [Outcome.formatterSpans, Outcome.spansOf, hannotations, List.map_eq_nil_iff,
      List.filter_eq_nil_iff]
    intro x hx
    obtain ⟨y, hy, rfl⟩ := List.mem_map.1 hx
    exact fun hmark => hmarks y hy (beq_iff_eq.1 hmark)
  obtain rfl : (⟨o.document.version, []⟩ : Patch) = indent := by
    rw [hspans] at hindent
    exact Except.ok.inj hindent
  have htarget : o.renameTarget? = ((s.replacement.annotations.map (·.shift s.span.start)).filter
      (·.mark == .renameTarget)).head?.map Annotation.span := by
    rw [Outcome.renameTarget?, Outcome.spansOf, List.head?_map, hannotations]
  rcases htree with ⟨-, htree, heq⟩ | ⟨hne, -⟩
  · exact ⟨by rw [htree, hsplice], heq.trans htarget⟩
  · exact absurd rfl hne

/-- Mending with one splice that marks nothing makes that splice. -/
theorem Patch.splice_of_mend {version : Nat} {s : Splice} {d : Document} {stamp : Nat} {a : Applied}
    {title : String} {options : Options} {cancel : Cancellation}
    (hmarks : s.replacement.annotations = [])
    (h : (⟨version, [s]⟩ : Patch).mend title d options cancel stamp = .ok a) :
    d.tree.splice s = .ok a.document.tree :=
  (mend_single (by simp [hmarks]) h).1

/-- **Gathering everything.**  Where each fix is one splice, all of them together make the patch. -/
theorem Registry.batch_eq {r : Registry} {d : Document} {id : String} {key : FixKey}
    {options : Options} {cancel : Cancellation} {report : Report}
    (hreport : r.analyzeIn (.ofDocument d options) cancel = .ok report) {splices : List Splice}
    (hfixes : List.Forall₂ (r.MendsBy (.ofDocument d options) key)
      (report.diagnostics.filter (·.id == id)) splices) :
    r.batch d id key options cancel =
      .ok ⟨if splices.isEmpty then none else some ⟨d.version, splices⟩, splices.length, 0⟩ := by
  obtain ⟨actions, hactions, hpatches⟩ := mapM_fixes hfixes
  have hchosen : ((actions.map some).filterMap (·)).map CodeAction.patch =
      splices.map fun s => ⟨d.version, [s]⟩ := by
    rw [List.filterMap_map]
    refine Eq.trans ?_ hpatches
    simp
  have hbind {α β : Type} (a : α) (f : α → Except Failure β) : (Except.ok a >>= f) = f a := rfl
  simp only [batch, hreport, hbind, hactions, hchosen, hfixes.length_eq]
  simp only [List.length_map, Nat.sub_self]
  cases splices with
  | nil => rfl
  | cons s ss =>
      rw [merge_singles]
      rfl

/-- **Mending everything at once.**  Where each fix is one splice, and all of them together can be
applied, mark nothing and leave no errors, mending every occurrence applies them together. -/
theorem Registry.fixAll_eq {r : Registry} {d : Document} {id : String} {key : FixKey}
    {options : Options} {cancel : Cancellation} {stamp : Nat} {report : Report}
    (hreport : r.analyzeIn (.ofDocument d options) cancel = .ok report) {splices : List Splice}
    (hfixes : List.Forall₂ (r.MendsBy (.ofDocument d options) key)
      (report.diagnostics.filter (·.id == id)) splices) {o : Outcome}
    (ho : (⟨d.version, splices⟩ : Patch).apply d stamp = .ok o) (hmarks : o.annotations = [])
    (herr : (parse o.document.text).2 = []) :
    ∃ f, r.fixAll d id key options cancel stamp = .ok f ∧ f.skipped = 0 ∧
      f.document.tree = o.document.tree := by
  have hbatch := batch_eq hreport hfixes
  cases splices with
  | nil =>
      exact ⟨⟨d, 0, 0⟩, by rw [fixAll, hbatch]; rfl, rfl, (Patch.tree_of_apply_empty ho).symm⟩
  | cons s ss =>
      obtain ⟨a, ha, htree⟩ := Patch.mend_eq ho hmarks herr ("Fix all '" ++ key.text ++ "'")
        options cancel
      refine ⟨⟨a.document, (s :: ss).length, 0⟩, ?_, rfl, htree⟩
      rw [fixAll, hbatch]
      show (Patch.mend _ _ _ _ _ _ >>= _) = _
      rw [ha]
      rfl

end CodeMend

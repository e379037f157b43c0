import CodeMend.Engine.Probe
import CodeMend.Proofs.Engine.Runs

/-!
# Rules do not disturb each other

All analyzers of a registry share one list of findings and one list of faults.  What one of them
leaves behind there is its *tally*.  A visit of another analyzer does not change the tally, as long
as their ids differ (`visits_other`), and a visit of its own changes it in a way that depends on
nothing else (`visits_own`).  So the tally of a whole run is that of a run of this analyzer alone
(`run_tally`): what it reported at the nodes before the first one where it broke down, and one fault
if there is such a node.

Findings that tie in their order have the same id and so come from one analyzer.  Hence their order
in the report does not depend on the order of the analyzers (`Registry.sort_progress_congr`).
-/

namespace CodeMend

/-! ## The order of findings -/

namespace Diagnostic

/-- Findings are sorted by where they start, then by where they end, then by their ids. -/
theorem le_iff {a b : Diagnostic} : le a b = true ↔
    a.span.start < b.span.start ∨ a.span.start = b.span.start ∧
      (a.span.stop < b.span.stop ∨ a.span.stop = b.span.stop ∧ a.id ≤ b.id) := by
  simp [le]

/-- Findings are sorted by an order. -/
theorem le_isOrder : IsOrder le where
  total a b := by
    rw [le_iff, le_iff]
    rcases String.le_total a.id b.id with hid | hid <;> simp only [hid, and_true] <;> omega
  trans {a b c} hab hbc := by
    rw [le_iff] at *
    rcases hab with hab | ⟨hstart, hab | ⟨hstop, hab⟩⟩
    · omega
    · omega
    · rcases hbc with hbc | ⟨hstart', hbc | ⟨hstop', hbc⟩⟩
      · omega
      · omega
      · have hid : a.id ≤ c.id := String.le_trans hab hbc
        exact .inr ⟨by omega, .inr ⟨by omega, hid⟩⟩

/-- Findings that tie come from one rule. -/
theorem id_eq_of_tied {a b : Diagnostic} (h : tied le a b = true) : a.id = b.id := by
  obtain ⟨hab, hba⟩ := Bool.and_eq_true_iff.1 h
  rw [le_iff] at hab hba
  rcases hab with hab | ⟨hstart, hab | ⟨hstop, hab⟩⟩
  · omega
  · omega
  · rcases hba with hba | ⟨-, hba | ⟨-, hba⟩⟩
    · omega
    · omega
    · exact String.le_antisymm hab hba

end Diagnostic

/-! ## One analyzer by itself -/

namespace Analyzer

/-- Does a diagnostic carry one of the analyzer's ids? -/
def owns (a : Analyzer) (d : Diagnostic) : Bool := a.descriptors.any (·.id == d.id)

/-- Is a failure a fault of the analyzer? -/
def ownsFault (a : Analyzer) : Failure → Bool
  | .fault id _ => a.descriptors.any (·.id == id)
  | _ => false

/-- Have two analyzers no id in common? -/
def Apart (a b : Analyzer) : Prop := ∀ d ∈ a.descriptors, ∀ e ∈ b.descriptors, d.id ≠ e.id

/-- How an analyzer that is switched on breaks down at a node it looks at. -/
def breakdownAt? (a : Analyzer) (c : Context) (s : Site) : Option Breakdown :=
  if a.isEnabled c.options && a.kinds.contains s.kind then (a.visit c s).breakdown else none

/-- The nodes before the first one at which the analyzer breaks down. -/
def survived (a : Analyzer) (c : Context) (nodes : List Site) : List Site :=
  nodes.takeWhile fun s => (a.breakdownAt? c s).isNone

/-- The fault of the first breakdown, if there is any. -/
def firstFault (a : Analyzer) (c : Context) (nodes : List Site) : List Failure :=
  (nodes.findSome? (a.breakdownAt? c)).toList.map fun b => .fault a.id b.text

/-- What carries an id of one of two such analyzers is not of the other. -/
theorem Apart.not_owns {a b : Analyzer} (h : a.Apart b) {d : Diagnostic} (hd : b.owns d = true) :
    a.owns d = false := by
  obtain ⟨e, he, hid⟩ := List.any_eq_true.1 hd
  refine List.any_eq_false.2 fun x hx hxid => h x hx e he ?_
  rw [beq_iff_eq.1 hxid, beq_iff_eq.1 hid]

/-- An analyzer reports under its own ids only. -/
theorem owns_of_mem_findings {a : Analyzer} {c : Context} {fs : List Finding} {d : Diagnostic}
    (h : d ∈ fs.filterMap (a.diagnostic? c)) : a.owns d = true := by
  obtain ⟨f, -, hf⟩ := List.mem_filterMap.1 h
  exact (id_of_diagnostic? hf).2

/-- An analyzer that is switched on has a first descriptor, whose id stands for it. -/
theorem mem_descriptors_of_isEnabled {a : Analyzer} {o : Options} (h : a.isEnabled o = true) :
    ∃ d ∈ a.descriptors, a.id = d.id := by
  obtain ⟨d, hd, -⟩ := List.any_eq_true.1 h
  unfold id
  cases hlist : a.descriptors with
  | nil => simp [hlist] at hd
  | cons e es => exact ⟨e, List.mem_cons_self, rfl⟩

/-- The fault of an analyzer is its own. -/
theorem ownsFault_self {a : Analyzer} {o : Options} (h : a.isEnabled o = true) (text : String) :
    a.ownsFault (.fault a.id text) = true := by
  obtain ⟨d, hd, hid⟩ := mem_descriptors_of_isEnabled h
  exact List.any_eq_true.2 ⟨d, hd, beq_iff_eq.2 hid.symm⟩

/-- The fault of one of two such analyzers is not of the other. -/
theorem Apart.not_ownsFault {a b : Analyzer} (h : a.Apart b) {o : Options}
    (hb : b.isEnabled o = true) (text : String) : a.ownsFault (.fault b.id text) = false := by
  obtain ⟨e, he, hid⟩ := mem_descriptors_of_isEnabled hb
  refine List.any_eq_false.2 fun d hd hdid => h d hd e he ?_
  rw [beq_iff_eq.1 hdid, hid]

end Analyzer

/-- What an analyzer has left behind in a run. -/
structure Tally where
  diagnostics : List Diagnostic := []
  faults : List Failure := []
  /-- Has it broken down? -/
  broken : Bool := false

/-- The tally of an analyzer after it has visited one more node. -/
def Tally.visit (a : Analyzer) (c : Context) (t : Tally) (s : Site) : Tally :=
  if t.broken then t
  else match a.breakdownAt? c s with
    | some b => { t with faults := t.faults ++ [.fault a.id b.text], broken := true }
    | none => { t with diagnostics := t.diagnostics ++ a.reported c s }

/-- An analyzer that has broken down leaves nothing more behind. -/
theorem Tally.foldl_visit_broken {a : Analyzer} {c : Context} {t : Tally} (h : t.broken = true)
    (nodes : List Site) : nodes.foldl (Tally.visit a c) t = t := by
  induction nodes with
  | nil => rfl
  | cons s nodes ih => rw [List.foldl_cons, Tally.visit, if_pos h, ih]

/-- What an analyzer leaves behind is what it reports before its first breakdown, and the fault of
that. -/
theorem Tally.foldl_visit {a : Analyzer} {c : Context} {t : Tally} (h : t.broken = false)
    (nodes : List Site) :
    (nodes.foldl (Tally.visit a c) t).diagnostics =
        t.diagnostics ++ (a.survived c nodes).flatMap (a.reported c) ∧
      (nodes.foldl (Tally.visit a c) t).faults = t.faults ++ a.firstFault c nodes := by
  induction nodes generalizing t with
  | nil => simp [Analyzer.survived, Analyzer.firstFault]
  | cons s nodes ih =>
      cases hb : a.breakdownAt? c s with
      | some b =>
          rw [List.foldl_cons, foldl_visit_broken (by simp [Tally.visit, h, hb])]
          simp [Tally.visit, Analyzer.survived, Analyzer.firstFault, h, hb]
      | none =>
          have hstep : Tally.visit a c t s =
              { t with diagnostics := t.diagnostics ++ a.reported c s } := by
            simp [Tally.visit, h, hb]
          rw [List.foldl_cons, hstep]
          obtain ⟨hdiagnostics, hfaults⟩ :=
            ih (t := { t with diagnostics := t.diagnostics ++ a.reported c s }) h
          rw [hdiagnostics, hfaults]
          simp [Analyzer.survived, Analyzer.firstFault, hb]

/-! ## One analyzer among others -/

namespace Progress

variable {c : Context} {s : Site} {a b : Analyzer} {i j : Nat}

/-- What the analyzer of number `i` has left behind. -/
def tally (p : Progress) (i : Nat) (a : Analyzer) : Tally where
  diagnostics := p.diagnostics.filter a.owns
  faults := p.faults.filter a.ownsFault
  broken := p.broken.contains i

/-- What an analyzer states at a node, as diagnostics. -/
def stated (a : Analyzer) (c : Context) (s : Site) : List Diagnostic :=
  (a.visit c s).findings.filterMap (a.diagnostic? c)

/-- An analyzer that has broken down is not asked again. -/
theorem visit_of_broken {p : Progress} (h : p.broken.contains i = true) :
    p.visit c s i a = p := by
  rw [visit, if_pos h]

/-- An analyzer that stands firm adds what it states. -/
theorem visit_firm {p : Progress} (h : p.broken.contains i = false)
    (hfirm : (a.visit c s).breakdown = none) : p.visit c s i a = p.add (stated a c s) := by
  rw [visit, if_neg (by simpa using h)]
  simp only [hfirm]
  rfl

/-- An analyzer that breaks down at a node leaves one fault and nothing of what it stated there.
-/
theorem visit_breaking {p : Progress} (h : p.broken.contains i = false) {how : Breakdown}
    (hbreak : (a.visit c s).breakdown = some how) : p.visit c s i a =
      { p with faults := p.faults ++ [.fault a.id how.text], broken := i :: p.broken } := by
  rw [visit, if_neg (by simpa using h)]
  simp only [hbreak]

/-- A visit of another analyzer adds nothing to the tally of this one. -/
theorem visit_other (hab : a.Apart b) (hij : i ≠ j) (hb : b.isEnabled c.options = true)
    (p : Progress) : (p.visit c s j b).tally i a = p.tally i a := by
  cases hbroken : p.broken.contains j with
  | true => rw [visit_of_broken hbroken]
  | false =>
      cases hhow : (b.visit c s).breakdown with
      | none =>
          have hnone : (stated b c s).filter a.owns = [] :=
            List.filter_eq_nil_iff.2 fun d hd => by
              simp [hab.not_owns (Analyzer.owns_of_mem_findings hd)]
          rw [visit_firm hbroken hhow]
          simp [tally, add, hnone]
      | some how =>
          rw [visit_breaking hbroken hhow]
          simp [tally, hab.not_ownsFault hb, hij]

/-- **Other analyzers** leave the tally as it is. -/
theorem visits_other (hab : a.Apart b) (hij : i ≠ j) (hb : b.isEnabled c.options = true)
    (p : Progress) : (p.visits c s j b).tally i a = p.tally i a := by
  unfold visits
  generalize b.kinds.count s.kind = n
  induction n generalizing p with
  | zero => rfl
  | succ n ih => rw [List.replicate_succ, List.foldl_cons, ih, visit_other hab hij hb]

/-- Asking again changes nothing after a breakdown. -/
theorem foldl_visit_broken {p : Progress} (h : p.broken.contains i = true) (n : Nat) :
    (List.replicate n a).foldl (fun p a => p.visit c s i a) p = p := by
  induction n with
  | zero => rfl
  | succ n ih => rw [List.replicate_succ, List.foldl_cons, visit_of_broken h, ih]

/-- An analyzer that stands firm at a node adds what it reports there. -/
theorem foldl_visit_firm {p : Progress} (h : p.broken.contains i = false)
    (hfirm : (a.visit c s).breakdown = none) (n : Nat) :
    (List.replicate n a).foldl (fun p a => p.visit c s i a) p =
      p.add (List.replicate n (stated a c s)).flatten := by
  induction n generalizing p with
  | zero => exact (add_nil p).symm
  | succ n ih =>
      rw [List.replicate_succ, List.foldl_cons, visit_firm h hfirm,
        ih (p := p.add (stated a c s)) h, add_add, List.replicate_succ, List.flatten_cons]

/-- **An analyzer's own visits** change its tally by itself. -/
theorem visits_own (ha : a.isEnabled c.options = true) (p : Progress) :
    (p.visits c s i a).tally i a = Tally.visit a c (p.tally i a) s := by
  cases hbroken : p.broken.contains i with
  | true =>
      rw [visits, foldl_visit_broken hbroken, Tally.visit, if_pos (show (p.tally i a).broken = true
        from hbroken)]
  | false =>
      have hb : a.breakdownAt? c s =
          if a.kinds.contains s.kind then (a.visit c s).breakdown else none := by
        simp [Analyzer.breakdownAt?, ha]
      rw [Tally.visit, if_neg (show ¬(p.tally i a).broken = true by simpa [tally] using hbroken)]
      cases hfirm : (a.visit c s).breakdown with
      | none =>
          have hnone : a.breakdownAt? c s = none := by
            rw [hb, hfirm]
            exact ite_self _
          have hall : (a.reported c s).filter a.owns = a.reported c s :=
            List.filter_eq_self.2 fun d hd => Analyzer.id_of_mem_reported hd
          have hreported : a.reported c s =
              (List.replicate (a.kinds.count s.kind) (stated a c s)).flatten := by
            rw [Analyzer.reported, if_pos ha]
            rfl
          rw [visits, foldl_visit_firm hbroken hfirm, hnone, ← hreported]
          simp only [tally, add, List.filter_append, hall]
      | some how =>
          by_cases hkind : s.kind ∈ a.kinds
          · -- the first of its visits breaks down, the others do not take place
            obtain ⟨n, hn⟩ : ∃ n, a.kinds.count s.kind = n + 1 :=
              ⟨_, (Nat.succ_pred_eq_of_pos (List.count_pos_iff.2 hkind)).symm⟩
            have hsome : a.breakdownAt? c s = some how := by
              rw [hb, if_pos (List.contains_iff_mem.2 hkind), hfirm]
            rw [visits, hn, List.replicate_succ, List.foldl_cons, visit_breaking hbroken hfirm,
              foldl_visit_broken (by simp), hsome]
            simp [tally, Analyzer.ownsFault_self ha]
          · have hnone : a.breakdownAt? c s = none := by
              rw [hb, if_neg (fun h => hkind (List.contains_iff_mem.1 h))]
            rw [visits, List.count_eq_zero.2 hkind, hnone, Analyzer.reported_of_notMem hkind]
            simp

/-- The step that `Progress.node` makes for one of the analyzers. -/
def turn (c : Context) (s : Site) (p : Progress) (e : Analyzer × Nat) : Progress :=
  if e.1.isEnabled c.options then p.visits c s e.2 e.1 else p

/-- The turns of other analyzers leave the tally as it is. -/
theorem foldl_turn_other {es : List (Analyzer × Nat)}
    (h : ∀ e ∈ es, a.Apart e.1 ∧ i ≠ e.2) (p : Progress) :
    (es.foldl (turn c s) p).tally i a = p.tally i a := by
  induction es generalizing p with
  | nil => rfl
  | cons e es ih =>
      obtain ⟨hapart, hne⟩ := h e List.mem_cons_self
      rw [List.foldl_cons, ih (fun x hx => h x (List.mem_cons_of_mem e hx)), turn]
      split
      · next hon => exact visits_other hapart hne hon p
      · rfl

/-- A tally after one more node, whatever the other analyzers do there. -/
theorem node_tally {before after : List Analyzer}
    (hapart : ∀ b ∈ before ++ after, a.Apart b) (p : Progress) :
    (node c (before ++ a :: after) p s).tally before.length a =
      Tally.visit a c (p.tally before.length a) s := by
  have hsplit : (before ++ a :: after).zipIdx =
      before.zipIdx ++ (a, before.length) :: after.zipIdx (before.length + 1) := by
    simp [List.zipIdx_append, List.zipIdx_cons]
  have hbefore : ∀ e ∈ before.zipIdx, a.Apart e.1 ∧ before.length ≠ e.2 := fun e he => by
    have hlt := (List.mem_zipIdx he).2.1
    exact ⟨hapart _ (List.mem_append_left _ (List.fst_mem_of_mem_zipIdx he)), by omega⟩
  have hafter : ∀ e ∈ after.zipIdx (before.length + 1), a.Apart e.1 ∧ before.length ≠ e.2 :=
    fun e he => by
      have hge := (List.mem_zipIdx he).1
      exact ⟨hapart _ (List.mem_append_right _ (List.fst_mem_of_mem_zipIdx he)), by omega⟩
  show (List.foldl (turn c s) p _).tally _ a = _
  rw [hsplit, List.foldl_append, List.foldl_cons, foldl_turn_other hafter, turn]
  split
  · next hon => rw [visits_own hon, foldl_turn_other hbefore]
  · next hoff =>
    rw [foldl_turn_other hbefore, Tally.visit]
    simp [Analyzer.breakdownAt?, Analyzer.reported, hoff]

/-- **The tally of a run** is that of a run of the analyzer alone. -/
theorem run_tally {before after : List Analyzer} (hapart : ∀ b ∈ before ++ after, a.Apart b)
    (nodes : List Site) (p : Progress) :
    (nodes.foldl (node c (before ++ a :: after)) p).tally before.length a =
      nodes.foldl (Tally.visit a c) (p.tally before.length a) := by
  induction nodes generalizing p with
  | nil => rfl
  | cons s nodes ih => rw [List.foldl_cons, List.foldl_cons, ih, node_tally hapart]

/-- All findings and faults belong to one of the analyzers. -/
structure Owned (analyzers : List Analyzer) (p : Progress) : Prop where
  diagnostics : ∀ d ∈ p.diagnostics, ∃ a ∈ analyzers, a.owns d = true
  faults : ∀ f ∈ p.faults, ∃ a ∈ analyzers, a.ownsFault f = true

/-- What a visit leaves behind belongs to the analyzer. -/
theorem visit_owned {analyzers : List Analyzer} {p : Progress} (h : p.Owned analyzers)
    (ha : a ∈ analyzers) (hon : a.isEnabled c.options = true) :
    (p.visit c s i a).Owned analyzers := by
  cases hbroken : p.broken.contains i with
  | true => rwa [visit_of_broken hbroken]
  | false =>
      cases hhow : (a.visit c s).breakdown with
      | none =>
          rw [visit_firm hbroken hhow]
          refine ⟨fun d hd => ?_, h.faults⟩
          rcases List.mem_append.1 hd with hd | hd
          · exact h.diagnostics d hd
          · exact ⟨a, ha, Analyzer.owns_of_mem_findings hd⟩
      | some how =>
          rw [visit_breaking hbroken hhow]
          refine ⟨h.diagnostics, fun f hf => ?_⟩
          rcases List.mem_append.1 hf with hf | hf
          · exact h.faults f hf
          · rw [List.mem_singleton.1 hf]
            exact ⟨a, ha, Analyzer.ownsFault_self hon _⟩

/-- What a turn leaves behind belongs to the analyzer, if it is switched on at all. -/
theorem turn_owned {analyzers : List Analyzer} {p : Progress} (h : p.Owned analyzers)
    (ha : a ∈ analyzers) : (turn c s p (a, i)).Owned analyzers := by
  unfold turn visits
  split
  · next hon =>
    generalize a.kinds.count s.kind = n
    induction n generalizing p with
    | zero => exact h
    | succ n ih =>
        rw [List.replicate_succ, List.foldl_cons]
        exact ih (visit_owned h ha hon)
  · exact h

/-- What a run leaves behind belongs to its analyzers. -/
theorem run_owned {analyzers : List Analyzer} {p : Progress} (h : p.Owned analyzers)
    (nodes : List Site) : (nodes.foldl (node c analyzers) p).Owned analyzers := by
  have hturns : ∀ (s : Site) (es : List (Analyzer × Nat)), (∀ e ∈ es, e.1 ∈ analyzers) →
      ∀ p : Progress, p.Owned analyzers → (es.foldl (turn c s) p).Owned analyzers := by
    intro s es
    induction es with
    | nil => exact fun _ _ h => h
    | cons e es ih =>
        intro hes p h
        exact ih (fun x hx => hes x (List.mem_cons_of_mem e hx)) _
          (turn_owned h (hes e List.mem_cons_self))
  induction nodes generalizing p with
  | nil => exact h
  | cons s nodes ih =>
      exact ih (hturns s _ (fun e he => List.fst_mem_of_mem_zipIdx he) p h)

end Progress

/-! ## Registries -/

namespace Registry

variable {r : Registry} {c : Context} {cancel : Cancellation}

/-- The registry that holds one analyzer alone. -/
def alone (a : Analyzer) : Registry := { analyzers := [a] }

/-- Every id belongs to one descriptor. -/
def Distinct (r : Registry) : Prop := (r.descriptors.map Descriptor.id).Nodup

/-- The ids of one analyzer of a registry are distinct if those of the registry are. -/
theorem distinct_alone {a : Analyzer} (hr : r.Distinct) (ha : a ∈ r.analyzers) :
    (alone a).Distinct := by
  have hsub : a.descriptors.Sublist r.descriptors := by
    rw [descriptors, List.flatMap_def]
    exact List.sublist_flatten_of_mem (List.mem_map_of_mem ha)
  have hall : (alone a).descriptors = a.descriptors := List.flatMap_singleton ..
  rw [Distinct, hall]
  exact List.Nodup.sublist (hsub.map Descriptor.id) hr

/-- In a registry with distinct ids an analyzer is apart from all others. -/
theorem Distinct.apart {a : Analyzer} {before after : List Analyzer} (hr : r.Distinct)
    (hsplit : r.analyzers = before ++ a :: after) : ∀ b ∈ before ++ after, a.Apart b := by
  intro b hb d hd e he hid
  have hperm : r.analyzers.Perm (a :: (before ++ after)) := hsplit ▸ List.perm_middle
  have hids : (r.descriptors.map Descriptor.id).Perm
      (((a :: (before ++ after)).flatMap Analyzer.descriptors).map Descriptor.id) :=
    (hperm.flatMap_right Analyzer.descriptors).map Descriptor.id
  have hnodup := hids.nodup_iff.1 hr
  rw [List.flatMap_cons, List.map_append] at hnodup
  have hdisjoint := (List.nodup_append.1 hnodup).2.2
  exact hdisjoint d.id (List.mem_map_of_mem hd) e.id
    (List.mem_map_of_mem (List.mem_flatMap.2 ⟨b, hb, he⟩)) hid

/-- The findings of a run in the order of the visits, and its faults. -/
def progress (r : Registry) (c : Context) : Progress :=
  c.root.subnodes.foldl (Progress.node c r.analyzers) {}

/-- Without a cancellation an analysis gives the sorted findings of the run and its faults. -/
theorem analyzeIn_eq (hcancel : cancel.requested = false) :
    r.analyzeIn c cancel =
      .ok ⟨Diagnostic.sort (r.progress c).diagnostics, (r.progress c).faults⟩ := by
  simp only [analyzeIn, Cancellation.check, hcancel]
  rfl

/-- **What one analyzer leaves behind in a run**, whichever others take part in it. -/
theorem progress_own {a : Analyzer} (hr : r.Distinct) (ha : a ∈ r.analyzers) :
    (r.progress c).diagnostics.filter a.owns =
        (a.survived c c.root.subnodes).flatMap (a.reported c) ∧
      (r.progress c).faults.filter a.ownsFault = a.firstFault c c.root.subnodes := by
  obtain ⟨before, after, hsplit⟩ := List.append_of_mem ha
  have htally := Progress.run_tally (c := c) (hr.apart hsplit) c.root.subnodes {}
  rw [← hsplit] at htally
  obtain ⟨hdiagnostics, hfaults⟩ := Tally.foldl_visit (a := a) (c := c) (t := {}) rfl
    c.root.subnodes
  have hempty : Progress.tally {} before.length a = {} := rfl
  rw [hempty] at htally
  refine ⟨?_, ?_⟩
  · show ((r.progress c).tally before.length a).diagnostics = _
    rw [progress, htally, hdiagnostics]
    rfl
  · show ((r.progress c).tally before.length a).faults = _
    rw [progress, htally, hfaults]
    rfl

/-- What a run of the registry leaves behind belongs to its analyzers. -/
theorem progress_owned (r : Registry) (c : Context) : (r.progress c).Owned r.analyzers := by
  have hempty : Progress.Owned r.analyzers {} := ⟨(by simp), (by simp)⟩
  exact Progress.run_owned hempty _

/-- In an analysis by one analyzer everything is its own. -/
theorem progress_alone {a : Analyzer} (ha : (alone a).Distinct) (c : Context) :
    ((alone a).progress c).diagnostics = (a.survived c c.root.subnodes).flatMap (a.reported c) ∧
      ((alone a).progress c).faults = a.firstFault c c.root.subnodes := by
  obtain ⟨hdiagnostics, hfaults⟩ := progress_own (c := c) ha List.mem_cons_self
  have howned := progress_owned (alone a) c
  rw [← hdiagnostics, ← hfaults]
  refine ⟨(List.filter_eq_self.2 fun d hd => ?_).symm, (List.filter_eq_self.2 fun f hf => ?_).symm⟩
  · obtain ⟨b, hb, hown⟩ := howned.diagnostics d hd
    rwa [List.mem_singleton.1 hb] at hown
  · obtain ⟨b, hb, hown⟩ := howned.faults f hf
    rwa [List.mem_singleton.1 hb] at hown

/-- The order of the analyzers does not matter for what is found. -/
theorem sort_progress_congr {r' : Registry} (hr : r.Distinct)
    (hperm : r'.analyzers.Perm r.analyzers) (c : Context) :
    Diagnostic.sort (r'.progress c).diagnostics = Diagnostic.sort (r.progress c).diagnostics := by
  have hr' : r'.Distinct :=
    ((hperm.flatMap_right Analyzer.descriptors).map Descriptor.id).nodup_iff.2 hr
  have hties (d : Diagnostic) {q : Registry} {a : Analyzer} (ha : a.owns d = true) :
      (q.progress c).diagnostics.filter (tied Diagnostic.le d) =
        ((q.progress c).diagnostics.filter a.owns).filter (tied Diagnostic.le d) := by
    rw [List.filter_filter]
    refine List.filter_congr fun e _ => ?_
    cases htied : tied Diagnostic.le d e with
    | false => rfl
    | true =>
        rw [Analyzer.owns, ← Diagnostic.id_eq_of_tied htied]
        exact ha.symm
  refine sortBy_congr Diagnostic.le_isOrder fun d => ?_
  by_cases hown : ∃ a ∈ r.analyzers, a.owns d = true
  · obtain ⟨a, ha, hd⟩ := hown
    rw [hties d hd, hties d hd, (progress_own hr' (hperm.mem_iff.2 ha)).1, (progress_own hr ha).1]
  · -- nothing that was found ties with `d`, since it would have an owner
    have hnone {q : Registry} (hq : ∀ a ∈ q.analyzers, a ∈ r.analyzers) :
        (q.progress c).diagnostics.filter (tied Diagnostic.le d) = [] := by
      refine List.filter_eq_nil_iff.2 fun e he htied => ?_
      obtain ⟨a, ha, howns⟩ := (progress_owned q c).diagnostics e he
      rw [Analyzer.owns, ← Diagnostic.id_eq_of_tied htied] at howns
      exact hown ⟨a, hq a ha, howns⟩
    rw [hnone fun a ha => hperm.mem_iff.1 ha, hnone fun a ha => ha]

end Registry

/-- **Rules are isolated from each other.**  In a registry whose descriptors have distinct ids, the
diagnostics with the ids of one analyzer, in their order, and its faults are those of an analysis by
this analyzer alone.  These are what it reports at the nodes before the first one where it breaks
down, and one fault if there is such a node.  The diagnostics of the registry do not depend on the
order of its analyzers. -/
theorem analysis_isolated (r : Registry) (d : Document) (options : Options) (cancel : Cancellation)
    (hdistinct : r.Distinct) (hcancel : cancel.requested = false) :
    ∃ report, r.analyze d options cancel = .ok report ∧
      (∀ a ∈ r.analyzers, ∃ own, (Registry.alone a).analyze d options cancel = .ok own ∧
        report.diagnostics.filter a.owns = own.diagnostics ∧
        report.faults.filter a.ownsFault = own.faults ∧
        own.diagnostics = Diagnostic.sort ((a.survived (.ofDocument d options) d.root.subnodes).flatMap
          (a.reported (.ofDocument d options))) ∧
        own.faults = a.firstFault (.ofDocument d options) d.root.subnodes) ∧
      ∀ r' : Registry, r'.analyzers.Perm r.analyzers → ∃ report',
        r'.analyze d options cancel = .ok report' ∧ report'.diagnostics = report.diagnostics := by
  refine ⟨_, Registry.analyzeIn_eq hcancel, fun a ha => ?_, fun r' hperm => ?_⟩
  · obtain ⟨hdiagnostics, hfaults⟩ := Registry.progress_own
      (c := .ofDocument d options) hdistinct ha
    obtain ⟨hown, hownFaults⟩ := Registry.progress_alone (Registry.distinct_alone hdistinct ha)
      (.ofDocument d options)
    refine ⟨_, Registry.analyzeIn_eq hcancel, ?_, ?_, ?_, hownFaults⟩
    · show List.filter _ (Diagnostic.sort _) = Diagnostic.sort _
      rw [Diagnostic.sort, filter_sortBy Diagnostic.le_isOrder, hdiagnostics, hown]
      rfl
    · show List.filter _ _ = (Registry.progress _ _).faults
      rw [hfaults, hownFaults]
    · show Diagnostic.sort _ = _
      rw [hown]
      rfl
  · exact ⟨_, Registry.analyzeIn_eq hcancel, Registry.sort_progress_congr hdistinct hperm _⟩

/-- An analyzer that breaks down at the second field leaves its finding at the first one and one
fault, and the echo at the class remains. -/
theorem analysis_isolated_probe :
    let echo : Analyzer := ⟨[Probe.echo], [.classDeclaration], Probe.echoing⟩
    let panicky : Analyzer := ⟨[Probe.panicky], [.fieldDeclaration], Probe.breakingDown⟩
    let r : Registry := { analyzers := [panicky, echo] }
    let d := Document.ofText 1 "class C \x7b int a; int Boom; \x7d"
    ∃ report, r.analyze d {} {} = .ok report ∧
      (report.diagnostics.filter panicky.owns).map Diagnostic.span = [⟨10, 16⟩] ∧
      (report.diagnostics.filter echo.owns).map Diagnostic.span = [⟨0, 28⟩] ∧
      report.faults.filter panicky.ownsFault = [.fault "TST0002" "boom"] := by
  intro echo panicky r d
  obtain ⟨report, hreport, hown, -⟩ := analysis_isolated r d {} {}
    (by unfold Registry.Distinct; decide) rfl
  obtain ⟨own, -, hfound, hfaults, hdiagnostics, hfault⟩ := hown panicky List.mem_cons_self
  obtain ⟨own', -, hfound', -, hdiagnostics', -⟩ := hown echo (by simp [r])
  refine ⟨report, hreport, ?_, ?_, ?_⟩
  · rw [hfound, hdiagnostics]
    decide +kernel
  · rw [hfound', hdiagnostics']
    decide +kernel
  · rw [hfaults, hfault]
    decide +kernel

end CodeMend

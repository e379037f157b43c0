import CodeMend.Proofs.Trivia.Nesting

/-!
# Cuts in sequences of directives

A stretch of directives that is balanced by itself leaves a scan as it found it (`Scan.run_neutral`):
what it opens it closes, and it does not look below.  So with the stretch cut out the rest of the scan
is the same, but for the positions, which come earlier (`Scan.run_relabel`), and the same items lack a
partner.  A stretch of a balanced sequence may also be replaced by its items without a partner, since
these open and close what the stretch does.
-/

namespace CodeMend.Directive

/-! ## A stretch that is balanced by itself -/

/-- What continues or closes a pair needs one. -/
theorem advance_nil {d : Directive} (hpaired : d.isPaired = true) {p : Pairing}
    {ps qs : List Pairing} (h : advance (p :: ps) d = some qs) (hle : qs.length ≤ ps.length + 1) :
    advance [] d = none := by
  cases d with
  | ifOpen =>
      obtain rfl := Option.some.inj h
      exact absurd hle (Nat.not_succ_le_self _)
  | regionOpen =>
      obtain rfl := Option.some.inj h
      exact absurd hle (Nat.not_succ_le_self _)
  | other => cases hpaired
  | elifBranch | elseBranch | ifClose | regionClose => rfl

/-- A directive with a partner among the inner frames changes these and nothing else. -/
theorem Scan.step_above {inner outer : List Open} {lost : List Nat} {d : Directive} (position : Nat)
    {ps : List Pairing} (h : advance (inner.map Open.pairing) d = some ps) :
    ∃ inner', (Scan.mk (inner ++ outer) lost).step d position = ⟨inner' ++ outer, lost⟩ ∧
      inner'.map Open.pairing = ps := by
  have hmoves := (Scan.mk (inner ++ outer) lost).moves_step d position
  generalize (Scan.mk (inner ++ outer) lost).step d position = s at hmoves
  cases hmoves with
  | lost _ hnone =>
      have hbelow := advance_below h (outer.map Open.pairing)
      rw [← List.map_append] at hbelow
      exact absurd (hnone.symm.trans hbelow) (Option.some_ne_none _).symm
  | @opened p _ hopens =>
      exact ⟨⟨p, [position]⟩ :: inner, rfl, Option.some.inj ((hopens _).symm.trans h)⟩
  | @continued f fs hframes hpaired hopens =>
      cases inner with
      | nil =>
          have hnone := advance_nil hpaired (hopens []) (Nat.le_refl _)
          exact absurd (hnone.symm.trans h) (Option.some_ne_none _).symm
      | cons g inner =>
          obtain ⟨rfl, rfl⟩ := List.cons.inj hframes
          exact ⟨{ g with positions := position :: g.positions } :: inner, rfl,
            Option.some.inj ((hopens _).symm.trans h)⟩
  | @closed f fs hframes hpaired hopens =>
      cases inner with
      | nil =>
          have hnone := advance_nil hpaired (hopens []) (Nat.zero_le _)
          exact absurd (hnone.symm.trans h) (Option.some_ne_none _).symm
      | cons g inner =>
          obtain ⟨rfl, rfl⟩ := List.cons.inj hframes
          exact ⟨inner, rfl, Option.some.inj ((hopens _).symm.trans h)⟩
  | passed hother =>
      subst hother
      exact ⟨inner, rfl, Option.some.inj h⟩

/-- A scan whose directives find their partners among the inner frames leaves the outer ones. -/
theorem Scan.run_above {inner outer : List Open} {lost : List Nat} (position : Nat)
    {ds : List Directive} {ps : List Pairing} (h : opens (inner.map Open.pairing) ds = some ps) :
    ∃ inner', (Scan.mk (inner ++ outer) lost).run position ds = ⟨inner' ++ outer, lost⟩ ∧
      inner'.map Open.pairing = ps := by
  induction ds generalizing inner position with
  | nil => exact ⟨inner, rfl, Option.some.inj h⟩
  | cons d ds ih =>
      rw [opens_cons, Option.bind_eq_some_iff] at h
      obtain ⟨middle, hadvance, hrest⟩ := h
      obtain ⟨inner', hstep, rfl⟩ := step_above position hadvance
      rw [run, hstep]
      exact ih (position + 1) hrest

/-- **A balanced stretch leaves a scan as it is.** -/
theorem Scan.run_neutral {ds : List Directive} (h : Balanced ds) (s : Scan) (position : Nat) :
    s.run position ds = s := by
  rw [balanced_iff] at h
  obtain ⟨inner, hrun, hinner⟩ := @run_above [] s.frames s.loose position ds [] h
  obtain rfl := List.map_eq_nil_iff.1 hinner
  exact hrun

theorem Scan.run_append (s : Scan) (position : Nat) (ds es : List Directive) :
    s.run position (ds ++ es) = (s.run position ds).run (position + ds.length) es := by
  induction ds generalizing s position with
  | nil => rfl
  | cons d ds ih =>
      rw [List.cons_append, run, ih, List.length_cons, Nat.add_comm ds.length, ← Nat.add_assoc]
      rfl

/-! ## Positions -/

/-- The frame with other names for its positions. -/
def Open.relabel (f : Nat → Nat) (o : Open) : Open := { o with positions := o.positions.map f }

/-- The scan with other names for its positions. -/
def Scan.relabel (f : Nat → Nat) (s : Scan) : Scan := ⟨s.frames.map (Open.relabel f), s.loose.map f⟩

section Relabel

variable {f : Nat → Nat}

/-- Closing a pair does not depend on how positions are numbered. -/
theorem Scan.close_relabel (s : Scan) (p : Pairing) (position : Nat) :
    (s.relabel f).close p (f position) = (s.close p position).relabel f := by
  cases hframes : s.frames with
  | nil => simp [close, relabel, hframes]
  | cons o fs =>
      by_cases hpairing : o.pairing = p
      · simp [close, relabel, Open.relabel, hframes, hpairing]
      · simp [close, relabel, Open.relabel, hframes, hpairing]

/-- A step does not care for the names of positions. -/
theorem Scan.step_relabel (s : Scan) (d : Directive) (position : Nat) :
    (s.relabel f).step d (f position) = (s.step d position).relabel f := by
  have hbranch : ∀ d, (d = .elifBranch ∨ d = .elseBranch) →
      (s.relabel f).step d (f position) = (s.step d position).relabel f := by
    intro d hd
    cases hframes : s.frames with
    | nil => rcases hd with rfl | rfl <;> simp [step, relabel, hframes]
    | cons o fs =>
        by_cases hpairing : o.pairing = .conditional
        · rcases hd with rfl | rfl <;> simp [step, relabel, Open.relabel, hframes, hpairing]
        · rcases hd with rfl | rfl <;> simp [step, relabel, Open.relabel, hframes, hpairing]
  cases d with
  | ifOpen => rfl
  | regionOpen => rfl
  | elifBranch => exact hbranch _ (Or.inl rfl)
  | elseBranch => exact hbranch _ (Or.inr rfl)
  | ifClose => exact s.close_relabel .conditional position
  | regionClose => exact s.close_relabel .region position
  | other => rfl

/-- Neither does a whole scan. -/
theorem Scan.run_relabel {position : Nat} (hf : ∀ i, position ≤ i → f (i + 1) = f i + 1) (s : Scan)
    (ds : List Directive) :
    (s.relabel f).run (f position) ds = (s.run position ds).relabel f := by
  induction ds generalizing s position with
  | nil => rfl
  | cons d ds ih =>
      rw [run, step_relabel, ← hf position (Nat.le_refl _)]
      exact ih (fun i hi => hf i (by omega)) (s.step d position)

theorem Scan.found_relabel (s : Scan) : (s.relabel f).found = s.found.map f := by
  rw [found, found, relabel, List.map_append, List.map_flatMap]
  simp only [← List.map_reverse, List.flatMap_map, Open.relabel]

/-- New numbers that are the old ones for all positions held change nothing. -/
theorem Scan.relabel_of_fixed {s : Scan} (h : ∀ i ∈ s.unpaired, f i = i) : s.relabel f = s := by
  have hlost : s.loose.map f = s.loose :=
    (List.map_congr_left fun i hi => h i (List.mem_append_left _ hi)).trans (List.map_id' _)
  have hframes : s.frames.map (Open.relabel f) = s.frames := by
    refine (List.map_congr_left fun o ho => ?_).trans (List.map_id' _)
    have hpositions : o.positions.map f = o.positions := by
      refine (List.map_congr_left fun i hi => h i ?_).trans (List.map_id' _)
      exact List.mem_append_right _ (List.mem_flatMap.2 ⟨o, ho, hi⟩)
    rw [Open.relabel, hpositions]
  rw [relabel, hframes, hlost]

end Relabel

/-- The positions from `n` on, moved by `k`. -/
def moved (n k i : Nat) : Nat := if i < n then i else i + k

theorem moved_of_lt {n i : Nat} (k : Nat) (h : i < n) : moved n k i = i := if_pos h

theorem moved_of_le {n i : Nat} (k : Nat) (h : n ≤ i) : moved n k i = i + k := if_neg (by omega)

/-- **With a balanced stretch put in, the same directives lack a partner**, found in the same order;
those behind it have later positions. -/
theorem found_insert {inner : List Directive} (hinner : Balanced inner)
    (before after : List Directive) :
    found (before ++ (inner ++ after)) =
      (found (before ++ after)).map (moved before.length inner.length) := by
  have hmoved : ∀ i, before.length ≤ i → moved before.length inner.length (i + 1) =
      moved before.length inner.length i + 1 := by
    intro i hi
    rw [moved_of_le _ hi, moved_of_le _ (Nat.le_succ_of_le hi), Nat.add_right_comm]
  have hstart : moved before.length inner.length before.length =
      before.length + inner.length := moved_of_le _ (Nat.le_refl _)
  have hfixed : (Scan.run ⟨[], []⟩ 0 before).relabel (moved before.length inner.length) =
      Scan.run ⟨[], []⟩ 0 before :=
    Scan.relabel_of_fixed fun i hi => moved_of_lt _ (lt_length_of_mem_loose hi)
  rw [found, found, Scan.run_append, Scan.run_append, Scan.run_append, Scan.run_neutral hinner,
    ← Scan.found_relabel, Nat.zero_add, ← Scan.run_relabel hmoved, hfixed, hstart]

/-- An item that moves with its position. -/
theorem getElem?_moved {α : Type} (before inner after : List α) (i : Nat) :
    (before ++ (inner ++ after))[moved before.length inner.length i]? = (before ++ after)[i]? := by
  by_cases hlt : i < before.length
  · rw [moved_of_lt _ hlt, List.getElem?_append_left hlt, List.getElem?_append_left hlt]
  · rw [moved_of_le _ (by omega), List.getElem?_append_right (by omega),
      List.getElem?_append_right (by omega), List.getElem?_append_right (by omega)]
    congr 1
    omega

/-! ## Items -/

section Items

variable {α : Type} (directive : α → Directive) (start : α → Nat) (before inner after : List α)

/-- **Balanced stretches may be cut out**: the same items lack a partner with and without them.  And a
stretch of a balanced sequence may be replaced by its items without a partner. -/
theorem unbalanced_cut :
    (unbalanced directive start inner = [] →
      unbalanced directive start (before ++ (inner ++ after)) =
        unbalanced directive start (before ++ after)) ∧
    (inner.Pairwise (fun a b => start a ≤ start b) →
      unbalanced directive start (before ++ (inner ++ after)) = [] →
      unbalanced directive start
        (before ++ (unbalanced directive start inner ++ after)) = []) := by
  constructor
  · intro hinner
    have hfound := found_insert ((unbalanced_eq_nil_iff directive start inner).1 hinner)
      (before.map directive) (after.map directive)
    simp only [← List.map_append, List.length_map] at hfound
    rw [unbalanced, unbalanced, hfound, List.filterMap_map]
    exact congrArg _ (List.filterMap_congr fun i _ => getElem?_moved before inner after i)
  · intro hstart hwhole
    simp only [unbalanced_eq_nil_iff, List.map_append, balanced_iff, opens_append_eq_some] at hwhole ⊢
    obtain ⟨outer, hbefore, middle, hinner, hafter⟩ := hwhole
    exact ⟨outer, hbefore, middle, opens_unbalanced hstart hinner, hafter⟩

end Items

/-- A region cut out of an open conditional, and a branch with a conditional that the rest closes;
where directives start does not matter to the first, and all may start at one place. -/
theorem unbalanced_cut_branch :
    (unbalanced id (fun _ => 0) [.regionOpen, .regionClose] = [] ∧
      unbalanced id (fun _ => 0) ([.ifOpen] ++ ([.regionOpen, .regionClose] ++ [.elseBranch])) =
        unbalanced id (fun _ => 0) ([.ifOpen] ++ [.elseBranch])) ∧
    ([.elseBranch, .ifOpen, .other].Pairwise (fun _ _ : Directive => 0 ≤ 0) ∧
      unbalanced id (fun _ => 0)
        ([.ifOpen] ++ ([.elseBranch, .ifOpen, .other] ++ [.ifClose, .ifClose])) = [] ∧
      unbalanced id (fun _ => 0) ([.ifOpen] ++
        (unbalanced id (fun _ => 0) [.elseBranch, .ifOpen, .other] ++ [.ifClose, .ifClose])) = []) :=
  ⟨⟨by decide, (unbalanced_cut id _ [.ifOpen] [.regionOpen, .regionClose] [.elseBranch]).1
      (by decide)⟩,
    by decide, by decide,
    (unbalanced_cut id _ [.ifOpen] [.elseBranch, .ifOpen, .other] [.ifClose, .ifClose]).2
      (by decide) (by decide)⟩

end CodeMend.Directive

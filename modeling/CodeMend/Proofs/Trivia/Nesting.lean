import CodeMend.Proofs.Trivia.Walks

/-!
# The language of nested directives

`Nested` is a grammar of directives: a region has one opening and one closing directive, and a
conditional has any number of branches between its own.  The scan for directives without a partner
decides it:

* `balanced_iff_nested`: nothing lacks a partner if and only if the directives are nested;
* `nested_partnered`: what remains when those without a partner are taken away is nested.

For the second, one has to know what would remain if the frames that are still open lost their
directives too, and this for any number of the outer ones (`Scan.Spares`): a later directive may
close the inner frames, but what is outside of them may stay open to the end.
-/

namespace CodeMend.Directive

/-- Directives that are nested. -/
inductive Nested : List Directive → Prop where
  | nil : Nested []
  | other {w : List Directive} : Nested w → Nested (.other :: w)
  | region {v w : List Directive} : Nested v → Nested w →
      Nested (.regionOpen :: (v ++ .regionClose :: w))
  | conditional {v w : List Directive} {branches : List (Directive × List Directive)} : Nested v →
      (∀ b ∈ branches, b.1 = .elifBranch ∨ b.1 = .elseBranch) → (∀ b ∈ branches, Nested b.2) →
      Nested w →
      Nested (.ifOpen :: (v ++ (branches.flatMap (fun b => b.1 :: b.2) ++ .ifClose :: w)))

/-! ## The scan and the grammar -/

/-- Branches leave their pair open. -/
theorem opens_branches {branches : List (Directive × List Directive)} {ps : List Pairing}
    (hbranch : ∀ b ∈ branches, b.1 = .elifBranch ∨ b.1 = .elseBranch)
    (hopens : ∀ b ∈ branches, opens (.conditional :: ps) b.2 = some (.conditional :: ps)) :
    opens (.conditional :: ps) (branches.flatMap (fun b => b.1 :: b.2)) =
      some (.conditional :: ps) := by
  induction branches with
  | nil => rfl
  | cons b bs ih =>
      obtain ⟨hb, hbs⟩ := List.forall_mem_cons.1 hbranch
      obtain ⟨hopen, hopens⟩ := List.forall_mem_cons.1 hopens
      have hadvance : advance (.conditional :: ps) b.1 = some (.conditional :: ps) := by
        rcases hb with hb | hb <;> rw [hb] <;> rfl
      rw [List.flatMap_cons, opens_append, opens_cons, hadvance, Option.bind_some, hopen,
        Option.bind_some, ih hbs hopens]

/-- Nested directives leave open what was open before them. -/
theorem Nested.opens_eq {w : List Directive} (h : Nested w) (ps : List Pairing) :
    opens ps w = some ps := by
  induction h generalizing ps with
  | nil => rfl
  | other _ ih => simp [advance, ih]
  | region _ _ ihv ihw => simp [advance, ihv, ihw]
  | conditional _ hbranch _ _ ihv ihb ihw =>
      have hbranches := opens_branches hbranch fun b hb => ihb b hb (.conditional :: ps)
      simp [advance, ihv, ihw, hbranches]

/-- The branches of a pair that is open, and the directive that closes it. -/
inductive Ending : Pairing → List Directive → Prop where
  | region : Ending .region [.regionClose]
  | ifClose : Ending .conditional [.ifClose]
  | branch {d : Directive} {v w : List Directive} : d = .elifBranch ∨ d = .elseBranch → Nested v →
      Ending .conditional w → Ending .conditional (d :: (v ++ w))

/-- What ends a conditional is nested stretches, each behind a branch, and then the end. -/
theorem Ending.branches {w : List Directive} (h : Ending .conditional w) :
    ∃ branches : List (Directive × List Directive),
      (∀ b ∈ branches, b.1 = .elifBranch ∨ b.1 = .elseBranch) ∧ (∀ b ∈ branches, Nested b.2) ∧
      w = branches.flatMap (fun b => b.1 :: b.2) ++ [.ifClose] := by
  generalize hp : Pairing.conditional = p at h
  induction h with
  | region => cases hp
  | ifClose => exact ⟨[], by simp, by simp, rfl⟩
  | @branch d v w hd hv _ ih =>
      obtain ⟨branches, hbranch, hnested, rfl⟩ := ih hp
      refine ⟨(d, v) :: branches, ?_, ?_, by simp⟩
      · exact List.forall_mem_cons.2 ⟨hd, hbranch⟩
      · exact List.forall_mem_cons.2 ⟨hv, hnested⟩

/-- Does a sequence close the pairs that are open, innermost first, with nested directives before,
between and behind? -/
def Closes : List Pairing → List Directive → Prop
  | [], w => Nested w
  | p :: ps, w => ∃ v ending rest, Nested v ∧ Ending p ending ∧ Closes ps rest ∧
      w = v ++ (ending ++ rest)

/-- What may stand before nested directives may stand before those that close pairs. -/
theorem Closes.prepend {u : List Directive} (hu : ∀ v, Nested v → Nested (u ++ v))
    {ps : List Pairing} {w : List Directive} (h : Closes ps w) : Closes ps (u ++ w) := by
  cases ps with
  | nil => exact hu w h
  | cons p ps =>
      obtain ⟨v, ending, rest, hv, hending, hrest, rfl⟩ := h
      exact ⟨u ++ v, ending, rest, hu v hv, hending, hrest, by simp⟩

/-- The directive that opens a pair. -/
def Pairing.opening : Pairing → Directive
  | .conditional => .ifOpen
  | .region => .regionOpen

/-- A pair that is opened and closed again. -/
theorem Closes.pair {p : Pairing} {ps : List Pairing} {w : List Directive}
    (h : Closes (p :: ps) w) : Closes ps (p.opening :: w) := by
  obtain ⟨v, ending, rest, hv, hending, hrest, rfl⟩ := h
  have hpair : ∀ u, Nested u → Nested ((p.opening :: (v ++ ending)) ++ u) := by
    intro u hu
    cases p with
    | region =>
        cases hending
        simpa [Pairing.opening] using Nested.region hv hu
    | conditional =>
        obtain ⟨branches, hbranch, hnested, rfl⟩ := hending.branches
        simpa [Pairing.opening] using Nested.conditional hv hbranch hnested hu
  simpa using hrest.prepend hpair

/-- A branch of the innermost pair. -/
theorem Closes.branch {d : Directive} (hd : d = .elifBranch ∨ d = .elseBranch) {ps : List Pairing}
    {w : List Directive} (h : Closes (.conditional :: ps) w) :
    Closes (.conditional :: ps) (d :: w) := by
  obtain ⟨v, ending, rest, hv, hending, hrest, rfl⟩ := h
  exact ⟨[], d :: (v ++ ending), rest, .nil, .branch hd hv hending, hrest, by simp⟩

/-- The end of the innermost pair. -/
theorem Closes.ending {d : Directive} {p : Pairing} (hd : Ending p [d]) {ps : List Pairing}
    {w : List Directive} (h : Closes ps w) : Closes (p :: ps) (d :: w) :=
  ⟨[], [d], w, .nil, hd, h, rfl⟩

/-- A sequence that takes the open pairs to none closes them. -/
theorem closes_of_opens {ps : List Pairing} {w : List Directive} (h : opens ps w = some []) :
    Closes ps w := by
  induction w generalizing ps with
  | nil =>
      obtain rfl : ps = [] := by simpa using h
      exact Nested.nil
  | cons d w ih =>
      rw [opens_cons, Option.bind_eq_some_iff] at h
      obtain ⟨middle, hadvance, hrest⟩ := h
      have hcloses := ih hrest
      cases d with
      | ifOpen =>
          obtain rfl := Option.some.inj hadvance
          exact hcloses.pair
      | regionOpen =>
          obtain rfl := Option.some.inj hadvance
          exact hcloses.pair
      | other =>
          obtain rfl := Option.some.inj hadvance
          exact hcloses.prepend (u := [.other]) fun _ hv => hv.other
      | elifBranch =>
          obtain ⟨hhead, rfl⟩ : ps.head? = some .conditional ∧ ps = middle := by
            simpa [advance] using hadvance
          obtain ⟨below, rfl⟩ := List.head?_eq_some_iff.1 hhead
          exact hcloses.branch (Or.inl rfl)
      | elseBranch =>
          obtain ⟨hhead, rfl⟩ : ps.head? = some .conditional ∧ ps = middle := by
            simpa [advance] using hadvance
          obtain ⟨below, rfl⟩ := List.head?_eq_some_iff.1 hhead
          exact hcloses.branch (Or.inr rfl)
      | ifClose =>
          obtain ⟨hhead, rfl⟩ : ps.head? = some .conditional ∧ ps.tail = middle := by
            simpa [advance] using hadvance
          obtain ⟨below, rfl⟩ := List.head?_eq_some_iff.1 hhead
          exact hcloses.ending .ifClose
      | regionClose =>
          obtain ⟨hhead, rfl⟩ : ps.head? = some .region ∧ ps.tail = middle := by
            simpa [advance] using hadvance
          obtain ⟨below, rfl⟩ := List.head?_eq_some_iff.1 hhead
          exact hcloses.ending .region

/-- **To have all partners is to be nested.** -/
theorem balanced_iff_nested (w : List Directive) : Balanced w ↔ Nested w := by
  rw [balanced_iff]
  exact ⟨closes_of_opens, fun h => h.opens_eq []⟩

/-- Pairs that cross. -/
example : ¬ Nested [.ifOpen, .regionOpen, .ifClose, .regionClose] := by
  rw [← balanced_iff_nested]
  decide

/-! ## One step of the scan -/

/-- What a scan may do with a directive. -/
inductive Scan.Moves (s : Scan) (d : Directive) (position : Nat) : Scan → Prop where
  | lost : d.isPaired = true → advance s.pairings d = none →
      Moves s d position { s with loose := position :: s.loose }
  | opened {p : Pairing} : d.isPaired = true → (∀ ps, advance ps d = some (p :: ps)) →
      Moves s d position { s with frames := ⟨p, [position]⟩ :: s.frames }
  | continued {f : Open} {fs : List Open} : s.frames = f :: fs → d.isPaired = true →
      (∀ ps, advance (f.pairing :: ps) d = some (f.pairing :: ps)) →
      Moves s d position { s with frames := { f with positions := position :: f.positions } :: fs }
  | closed {f : Open} {fs : List Open} : s.frames = f :: fs → d.isPaired = true →
      (∀ ps, advance (f.pairing :: ps) d = some ps) →
      Moves s d position { s with frames := fs }
  | passed : d = .other → Moves s d position s

/-- A directive that closes a pair. -/
theorem Scan.moves_close (s : Scan) {d : Directive} {p : Pairing} (position : Nat)
    (hd : d.isPaired = true)
    (hclose : ∀ ps, advance ps d = if ps.head? = some p then some ps.tail else none) :
    s.Moves d position (s.close p position) := by
  by_cases hhead : s.pairings.head? = some p
  · obtain ⟨f, fs, hframes, rfl⟩ := (s.head?_pairings p).1 hhead
    have hmove : s.close f.pairing position = { s with frames := fs } := by simp [close, hframes]
    rw [hmove]
    exact .closed hframes hd fun ps => by simp [hclose]
  · rw [close_of_head_ne hhead]
    exact .lost hd (by rw [hclose, if_neg hhead])

/-- A directive that continues a conditional. -/
theorem Scan.moves_branch (s : Scan) {d : Directive} (position : Nat)
    (hd : d = .elifBranch ∨ d = .elseBranch) : s.Moves d position (s.step d position) := by
  have hpaired : d.isPaired = true := by rcases hd with rfl | rfl <;> rfl
  have hadvance : ∀ ps, advance ps d = if ps.head? = some .conditional then some ps else none := by
    rcases hd with rfl | rfl <;> exact fun _ => rfl
  by_cases hhead : s.pairings.head? = some .conditional
  · obtain ⟨f, fs, hframes, hpairing⟩ := (s.head?_pairings _).1 hhead
    have hmove : s.step d position =
        { s with frames := { f with positions := position :: f.positions } :: fs } := by
      rcases hd with rfl | rfl <;> simp [step, hframes, hpairing]
    rw [hmove]
    exact .continued hframes hpaired fun ps => by simp [hadvance, hpairing]
  · have hnone : advance s.pairings d = none := by rw [hadvance, if_neg hhead]
    rw [(s.step_eq d position).2 hnone]
    exact .lost hpaired hnone

/-- Every step of a scan is one of the moves. -/
theorem Scan.moves_step (s : Scan) (d : Directive) (position : Nat) :
    s.Moves d position (s.step d position) := by
  cases d with
  | ifOpen => exact .opened rfl fun _ => rfl
  | regionOpen => exact .opened rfl fun _ => rfl
  | elifBranch => exact s.moves_branch position (Or.inl rfl)
  | elseBranch => exact s.moves_branch position (Or.inr rfl)
  | ifClose => exact s.moves_close position rfl fun _ => rfl
  | regionClose => exact s.moves_close position rfl fun _ => rfl
  | other => exact .passed rfl

/-! ## What remains -/

/-- The directives before position `n` that are not at the given positions. -/
def spared (all : List Directive) (without : List Nat) (n : Nat) : List Directive :=
  picked all ((List.range n).filter (fun i => !without.contains i))

section Spared

variable {all : List Directive} {without : List Nat} {n : Nat} {d : Directive}

theorem spared_congr {without' : List Nat} (h : ∀ i < n, i ∈ without ↔ i ∈ without') :
    spared all without n = spared all without' n := by
  refine congrArg (picked all) (List.filter_congr fun i hi => ?_)
  rw [Bool.eq_iff_iff]
  simp [h i (List.mem_range.1 hi)]

theorem spared_succ_of_mem (h : n ∈ without) : spared all without (n + 1) = spared all without n := by
  simp [spared, List.range_succ, List.filter_append, h]

theorem spared_succ_of_not_mem (hd : all[n]? = some d) (h : n ∉ without) :
    spared all without (n + 1) = spared all without n ++ [d] := by
  simp [spared, List.range_succ, List.filter_append, h, picked_append, picked_singleton hd]

end Spared

/-- What a scan knows before position `n` about the positions it holds: they lie behind it, at paired
directives.  And for each cut through its frames, what it has read without what it lost and what the
outer frames hold opens the pairs of the inner ones. -/
structure Scan.Spares (all : List Directive) (n : Nat) (s : Scan) : Prop where
  paired : ∀ i ∈ s.unpaired, i < n ∧ ∃ d, all[i]? = some d ∧ d.isPaired = true
  opens : ∀ inner outer, s.frames = inner ++ outer →
    opens [] (spared all (s.loose ++ outer.flatMap Open.positions) n) =
      some (inner.map Open.pairing)

section Spares

variable {all : List Directive} {n : Nat} {s : Scan} {d : Directive}

/-- The positions that a scan holds are behind it. -/
theorem Scan.Spares.lt (h : s.Spares all n) {inner outer : List Open}
    (hframes : s.frames = inner ++ outer) {i : Nat}
    (hi : i ∈ s.loose ++ outer.flatMap Open.positions) : i < n := by
  refine (h.paired i ?_).1
  rw [Scan.unpaired, hframes, List.flatMap_append]
  rcases List.mem_append.1 hi with hi | hi
  · exact List.mem_append_left _ hi
  · exact List.mem_append_right _ (List.mem_append_right _ hi)

/-- A directive that stays. -/
theorem Scan.Spares.keep (h : s.Spares all n) (hd : all[n]? = some d) {inner outer : List Open}
    (hframes : s.frames = inner ++ outer) :
    Directive.opens [] (spared all (s.loose ++ outer.flatMap Open.positions) (n + 1)) =
      advance (inner.map Open.pairing) d := by
  have hnot : n ∉ s.loose ++ outer.flatMap Open.positions := fun hmem =>
    Nat.lt_irrefl n (h.lt hframes hmem)
  rw [spared_succ_of_not_mem hd hnot, opens_append, h.opens inner outer hframes, Option.bind_some]
  simp

/-- A directive that goes with those of the frames. -/
theorem Scan.Spares.drop (h : s.Spares all n) {without : List Nat}
    (hwithout : ∀ i, i ∈ without ↔ i = n ∨ i ∈ s.unpaired) :
    Directive.opens [] (spared all without (n + 1)) = some [] := by
  rw [spared_succ_of_mem ((hwithout n).2 (Or.inl rfl)), ← @List.map_nil _ _ Open.pairing,
    ← h.opens [] s.frames rfl]
  refine congrArg _ (spared_congr fun i hi => ?_)
  rw [hwithout]
  exact or_iff_right (Nat.ne_of_lt hi)

/-- A step adds no other position than its own, and that is of a directive which needs a
partner. -/
theorem Scan.Spares.mem_step (h : s.Spares all n) (hd : all[n]? = some d) {i : Nat}
    (hi : i ∈ (s.step d n).unpaired) :
    i < n + 1 ∧ ∃ d, all[i]? = some d ∧ d.isPaired = true := by
  by_cases hpaired : d.isPaired = true
  · rcases mem_unpaired_step hi with hold | rfl
    · exact ⟨Nat.lt_succ_of_lt (h.paired i hold).1, (h.paired i hold).2⟩
    · exact ⟨Nat.lt_succ_self _, d, hd, hpaired⟩
  · obtain rfl : d = .other := by simpa [isPaired] using hpaired
    exact ⟨Nat.lt_succ_of_lt (h.paired i hi).1, (h.paired i hi).2⟩

/-- **One step keeps what is known.** -/
theorem Scan.Spares.step (h : s.Spares all n) (hd : all[n]? = some d) :
    (s.step d n).Spares all (n + 1) := by
  refine ⟨fun i hi => h.mem_step hd hi, fun inner outer hframes => ?_⟩
  have hmoves := s.moves_step d n
  generalize s.step d n = s' at hmoves hframes ⊢
  cases hmoves with
  | lost hpaired hnone =>
      -- it goes, whatever is cut off
      rw [List.cons_append, spared_succ_of_mem List.mem_cons_self, ← h.opens inner outer hframes]
      refine congrArg _ (spared_congr fun i hi => ?_)
      rw [List.mem_cons]
      exact or_iff_right (Nat.ne_of_lt hi)
  | opened hpaired hopens =>
      cases inner with
      | nil =>
          obtain rfl : _ = outer := hframes
          refine h.drop fun i => ?_
          simp only [Scan.unpaired, List.flatMap_cons, List.mem_append, List.mem_singleton]
          tauto
      | cons f inner =>
          obtain ⟨rfl, hrest⟩ := List.cons.inj hframes
          rw [h.keep hd hrest, hopens]
          rfl
  | @continued f fs hfs hpaired hopens =>
      cases inner with
      | nil =>
          obtain rfl : _ = outer := hframes
          refine h.drop fun i => ?_
          simp only [Scan.unpaired, hfs, List.flatMap_cons, List.mem_append, List.mem_cons]
          tauto
      | cons g inner =>
          obtain ⟨rfl, rfl⟩ := List.cons.inj hframes
          have hkeep := @keep _ _ _ _ h hd (f :: inner) outer hfs
          rw [hkeep, List.map_cons, hopens]
          rfl
  | @closed f fs hfs hpaired hopens =>
      obtain rfl : fs = inner ++ outer := hframes
      have hkeep := @keep _ _ _ _ h hd (f :: inner) outer hfs
      rw [hkeep, List.map_cons, hopens]
  | passed hother =>
      subst hother
      rw [h.keep hd hframes]
      rfl

/-- **A whole scan.** -/
theorem Scan.Spares.run {ds : List Directive} (h : s.Spares all n) (hds : all.drop n = ds) :
    (s.run n ds).Spares all (n + ds.length) := by
  induction ds generalizing s n with
  | nil => exact h
  | cons d ds ih =>
      have hd : all[n]? = some d := by
        rw [← List.head?_drop, hds]
        rfl
      have hds' : all.drop (n + 1) = ds := by
        rw [← List.drop_drop, hds]
        rfl
      rw [List.length_cons, Nat.add_comm ds.length, ← Nat.add_assoc]
      exact ih (h.step hd) hds'

end Spares

/-- A whole scan spares what it should, by the step and induction. -/
theorem spares_scan (ds : List Directive) :
    (Scan.run ⟨[], []⟩ 0 ds).Spares ds ds.length := by
  have hstart : Scan.Spares ds 0 ⟨[], []⟩ := by
    refine ⟨by simp [Scan.unpaired], fun inner outer hframes => ?_⟩
    obtain ⟨rfl, rfl⟩ := List.append_eq_nil_iff.1 hframes.symm
    rfl
  have hrun := hstart.run (show ds.drop 0 = ds from rfl)
  rwa [Nat.zero_add] at hrun

/-- A directive without a partner is one that needs one. -/
theorem isPaired_of_mem_loose {ds : List Directive} {i : Nat} (h : i ∈ loose ds) :
    ∃ d, ds[i]? = some d ∧ d.isPaired = true :=
  ((spares_scan ds).paired i h).2

/-- **What has a partner is nested.** -/
theorem nested_spared (ds : List Directive) : Nested (spared ds (loose ds) ds.length) := by
  rw [← balanced_iff_nested, balanced_iff]
  exact (spares_scan ds).opens [] _ rfl

/-! ## Items without a partner -/

/-- Items chosen by their position. -/
theorem map_filter_zipIdx {α : Type} (items : List α) (P : Nat → Bool) (k : Nat) :
    ((items.zipIdx k).filter (fun p => P p.2)).map Prod.fst =
      ((List.range' k items.length).filter P).filterMap (fun i => items[i - k]?) := by
  induction items generalizing k with
  | nil => rfl
  | cons a items ih =>
      have htail : ((List.range' (k + 1) items.length).filter P).filterMap
            (fun i => (a :: items)[i - k]?) =
          ((List.range' (k + 1) items.length).filter P).filterMap
            (fun i => items[i - (k + 1)]?) := by
        refine List.filterMap_congr fun i hi => ?_
        have hlt : k + 1 ≤ i := (List.mem_range'_1.1 (List.mem_filter.1 hi).1).1
        rw [show i - k = i - (k + 1) + 1 by omega, List.getElem?_cons_succ]
      rw [List.zipIdx_cons, List.length_cons, List.range'_succ, List.filter_cons, List.filter_cons]
      by_cases hk : P k = true
      · simp [hk, ih, htail]
      · simp [hk, ih, htail]

section Items

variable {α : Type} {directive : α → Directive} {start : α → Nat} {items : List α}

theorem isPaired_of_mem_unbalanced {a : α} (h : a ∈ unbalanced directive start items) :
    (directive a).isPaired = true := by
  obtain ⟨i, hi, hget⟩ := mem_unbalanced_iff.1 h
  obtain ⟨d, hd, hpaired⟩ := isPaired_of_mem_loose hi
  rw [List.getElem?_map, hget, Option.map_some, Option.some_inj] at hd
  rwa [hd]

/-- Different items without a partner are found, by where they start. -/
theorem unbalanced_sorted (directive : α → Directive) (start : α → Nat) (items : List α) :
    (unbalanced directive start items).Pairwise fun a b => start a ≤ start b :=
  (sortBy_sorted (byNumber_isOrder start) _).imp fun h => of_decide_eq_true h

/-- No item is found twice. -/
theorem unbalanced_nodup (directive : α → Directive) (start : α → Nat) (hnodup : items.Nodup) :
    (unbalanced directive start items).Nodup := by
  refine (sortBy_perm _).nodup_iff.2 ((found_nodup _).filterMap fun i j a hi hj => ?_)
  have hlt : i < items.length := (List.getElem?_eq_some_iff.1 hi).1
  exact (List.getElem?_inj hlt hnodup).1 (hi.trans hj.symm)

/-- **In the order of the text.**  Where items start one after the other those without a partner keep
their order. -/
theorem unbalanced_sublist (directive : α → Directive) {start : α → Nat}
    (hstart : items.Pairwise fun a b => start a < start b) :
    (unbalanced directive start items).Sublist items := by
  have hnodup : items.Nodup := hstart.imp fun {a b} hlt heq => Nat.ne_of_lt hlt (congrArg start heq)
  obtain ⟨chosen, hperm, hsublist⟩ := List.subperm_of_subset
    (unbalanced_nodup directive start hnodup) fun _ => mem_of_mem_unbalanced
  have hsorted : unbalanced directive start items = chosen :=
    sortBy_eq_of_perm ((sortBy_perm _).symm.trans hperm.symm) (hstart.sublist hsublist)
  rwa [hsorted]

/-- **The items that have a partner are nested.** -/
theorem nested_partnered {keep : α → Bool} (hnodup : items.Nodup)
    (hkeep : ∀ a ∈ items, keep a = true ↔ a ∉ unbalanced directive start items) :
    Nested ((items.filter keep).map directive) := by
  have hpositions : items.filter keep = (items.zipIdx.filter
      (fun p => !(loose (items.map directive)).contains p.2)).map Prod.fst := by
    conv_lhs => rw [← List.zipIdx_map_fst 0 items, List.filter_map]
    refine congrArg _ (List.filter_congr fun p hp => ?_)
    obtain ⟨a, i⟩ := p
    have hget : items[i]? = some a := List.mk_mem_zipIdx_iff_getElem?.1 hp
    have hlt : i < items.length := (List.getElem?_eq_some_iff.1 hget).1
    -- an item stands at one position only
    have hmem : a ∈ unbalanced directive start items ↔ i ∈ loose (items.map directive) := by
      rw [mem_unbalanced_iff]
      refine ⟨?_, fun hi => ⟨i, hi, hget⟩⟩
      rintro ⟨j, hj, hget'⟩
      rwa [(List.getElem?_inj hlt hnodup).1 (hget.trans hget'.symm)]
    rw [Bool.eq_iff_iff, Function.comp_apply, hkeep a (List.mem_of_getElem? hget), hmem]
    simp
  have hzip := map_filter_zipIdx items (fun i => !(loose (items.map directive)).contains i) 0
  have hspared := nested_spared (items.map directive)
  rw [spared, picked, List.length_map] at hspared
  rw [hpositions, hzip, ← List.range_eq_range', List.map_filterMap]
  refine (congrArg Nested (List.filterMap_congr fun i _ => ?_)).mp hspared
  rw [List.getElem?_map, Nat.sub_zero]

end Items

end CodeMend.Directive

namespace CodeMend.Site

open Directive

/-! ## Directives of a span -/

theorem directivesIn_sublist (origin : Nat) (t : Tree) (bounds : Span) :
    ((top origin t).directivesIn bounds).Sublist (top origin t).subtokens :=
  List.filter_sublist.trans (tokensIn_sublist origin t bounds)

/-- The directives of a span lie one behind the other. -/
theorem directivesIn_spread (origin : Nat) (t : Tree) (bounds : Span) :
    ((top origin t).directivesIn bounds).Pairwise fun a b => a.stop ≤ b.start :=
  (subtokens_spread.1 t origin 0 []).sublist (directivesIn_sublist origin t bounds)

/-- **The directives of a span are nested if and only if none lacks a partner.**  Else those without a
partner, each once and by where they start, are some of the paired ones, and the others are nested.
Where the directives have text they come in the order of the text; a directive without text starts
where the next token does, and such two come as they are found. -/
theorem unbalancedIn_nested (origin : Nat) (t : Tree) (bounds : Span) :
    let root := top origin t
    let inside := root.directivesIn bounds
    let found := root.unbalancedIn bounds
    (found = [] ↔ Nested (inside.map directive)) ∧
    found.Subperm (inside.filter (fun d => d.directive.isPaired)) ∧ found.Nodup ∧
    found.Pairwise (fun a b => a.start ≤ b.start) ∧
    Nested ((inside.filter (fun d => !found.any (fun r => r.same d))).map directive) ∧
    ((∀ d ∈ inside, d.start < d.stop) →
      found.Sublist (inside.filter (fun d => d.directive.isPaired)) ∧
        found.Pairwise (fun a b => a.stop ≤ b.start)) := by
  intro root inside found
  have hsublist : inside.Sublist root.subtokens := directivesIn_sublist origin t bounds
  have hspread : inside.Pairwise fun a b => a.stop ≤ b.start := directivesIn_spread origin t bounds
  have hnodup : inside.Nodup := root.subtokens_nodup.sublist hsublist
  have hfound : found.Nodup := unbalanced_nodup directive start hnodup
  have hpaired : found.filter (fun d => d.directive.isPaired) = found :=
    List.filter_eq_self.2 fun d hd => isPaired_of_mem_unbalanced hd
  refine ⟨?_, ?_, hfound, unbalanced_sorted directive start inside,
    @nested_partnered _ directive start inside _ hnodup fun d hd => ?_, fun htext => ?_⟩
  · rw [← balanced_iff_nested, ← unbalanced_eq_nil_iff directive start]
    exact Iff.rfl
  · rw [← hpaired]
    exact (List.subperm_of_subset hfound fun _ => mem_of_mem_unbalanced).filter _
  · have hmem : ∀ r ∈ inside, r ∈ root.subtree := fun r hr =>
      (List.mem_filter.1 (hsublist.subset hr)).1
    rw [Bool.not_eq_true', ← Bool.not_eq_true, List.any_eq_true, not_iff_not]
    constructor
    · rintro ⟨r, hr, hsame⟩
      rwa [← (same_iff (hmem r (mem_of_mem_unbalanced hr)) (hmem d hd)).1 hsame]
    · exact fun hd => ⟨d, hd, same_self d⟩
  · have hstart : inside.Pairwise fun a b => a.start < b.start :=
      hspread.imp_of_mem fun {a b} ha _ hab => Nat.lt_of_lt_of_le (htext a ha) hab
    have hinside : found.Sublist inside := unbalanced_sublist directive hstart
    refine ⟨?_, hspread.sublist hinside⟩
    rw [← hpaired]
    exact hinside.filter _

/-- A span with a region, cut off behind an opening directive whose closing one lies outside. -/
theorem unbalancedIn_nested_cut :
    let text := "class C\n\x7b\n#if A\n#region r\n#endregion\nint x;\n#endif\n\x7d\n"
    let root := top 0 (parse text).1
    let inside := root.directivesIn ⟨10, 40⟩
    let found := root.unbalancedIn ⟨10, 40⟩
    (∀ d ∈ inside, d.start < d.stop) ∧ found.map start = [10] ∧ found ≠ [] ∧
      found.Sublist (inside.filter (fun d => d.directive.isPaired)) := by
  intro text root inside found
  have htext : ∀ d ∈ inside, d.start < d.stop := by decide +kernel
  have hstart : found.map start = [10] := by decide +kernel
  obtain ⟨-, -, -, -, -, hordered⟩ := unbalancedIn_nested 0 (parse text).1 ⟨10, 40⟩
  refine ⟨htext, hstart, fun hnone => ?_, (hordered htext).1⟩
  rw [hnone] at hstart
  cases hstart

end CodeMend.Site

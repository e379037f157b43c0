import CodeMend.Trivia.Directive
import Mathlib.Data.List.Sort

/-!
# Which pairs are open

Of a sequence of directives only the pairs that it leaves open matter to what follows.  `opens` runs
over a sequence with a stack of open pairs and gives up at the first directive without a partner;
a sequence is balanced if it takes the empty stack to the empty stack (`balanced_iff`).

Directives neither look below the pairs they open and close (`opens_below`), nor do two different
stacks lead to the same one (`opens_injective`).  From these two:

* `balanced_hole_iff`: a hole in a balanced stretch of a balanced sequence leaves it balanced if and
  only if what is left of the stretch is balanced;
* `opens_unbalanced`: the directives of a stretch without a partner in it open and close what the
  whole stretch does.
-/

namespace CodeMend.Directive

/-- The positions that a scan holds without a partner so far, in no particular order. -/
def Scan.unpaired (s : Scan) : List Nat := s.loose ++ s.frames.flatMap Open.positions

/-- The positions without a partner, in no particular order. -/
def loose (ds : List Directive) : List Nat := (Scan.run ⟨[], []⟩ 0 ds).unpaired

/-- Has every directive its partner? -/
def Balanced (ds : List Directive) : Prop := loose ds = []

instance : DecidablePred Balanced := fun ds => inferInstanceAs (Decidable (loose ds = []))

/-- The pairs that are open behind a directive, innermost first; none if it has no partner among
those open before it. -/
def advance (opened : List Pairing) : Directive → Option (List Pairing)
  | .ifOpen => some (.conditional :: opened)
  | .regionOpen => some (.region :: opened)
  | .elifBranch | .elseBranch => if opened.head? = some .conditional then some opened else none
  | .ifClose => if opened.head? = some .conditional then some opened.tail else none
  | .regionClose => if opened.head? = some .region then some opened.tail else none
  | .other => some opened

/-- The pairs that are open behind a sequence of directives. -/
def opens (opened : List Pairing) (ds : List Directive) : Option (List Pairing) :=
  ds.foldlM advance opened

/-- Without directives nothing changes. -/
@[simp] theorem opens_nil (opened : List Pairing) : opens opened [] = some opened := rfl

/-- The first directive, and then the others. -/
@[simp] theorem opens_cons (opened : List Pairing) (d : Directive) (ds : List Directive) :
    opens opened (d :: ds) = (advance opened d).bind (opens · ds) := by
  simp [opens]

/-- Two sequences, one behind the other. -/
@[simp] theorem opens_append (opened : List Pairing) (ds es : List Directive) :
    opens opened (ds ++ es) = (opens opened ds).bind (opens · es) := by
  simp [opens, List.foldlM_append]

/-- A sequence gets through exactly if it does in two parts. -/
theorem opens_append_eq_some {opened final : List Pairing} {ds es : List Directive} :
    opens opened (ds ++ es) = some final ↔
      ∃ middle, opens opened ds = some middle ∧ opens middle es = some final := by
  rw [opens_append, Option.bind_eq_some_iff]

/-! ## Frames and stacks -/

/-- The pairs that a scan holds open. -/
def Scan.pairings (s : Scan) : List Pairing := s.frames.map Open.pairing

/-- A directive that closes or continues the innermost pair finds it in the innermost frame. -/
theorem Scan.head?_pairings (s : Scan) (p : Pairing) :
    s.pairings.head? = some p ↔ ∃ f fs, s.frames = f :: fs ∧ f.pairing = p := by
  cases hframes : s.frames with
  | nil => simp [pairings, hframes]
  | cons f fs => simp [pairings, hframes]

/-- Closing the innermost pair takes its frame off. -/
theorem Scan.close_of_head {s : Scan} {p : Pairing} (h : s.pairings.head? = some p)
    (position : Nat) :
    (s.close p position).pairings = s.pairings.tail ∧ (s.close p position).loose = s.loose := by
  obtain ⟨f, fs, hframes, hpairing⟩ := (s.head?_pairings p).1 h
  simp [close, pairings, hframes, hpairing]

/-- Closing another pair than the innermost one loses the directive and leaves the frames. -/
theorem Scan.close_of_head_ne {s : Scan} {p : Pairing} (h : s.pairings.head? ≠ some p)
    (position : Nat) : s.close p position = { s with loose := position :: s.loose } := by
  unfold close
  split
  · next f fs hframes =>
    have hpairing : f.pairing ≠ p := fun hpairing =>
      h ((s.head?_pairings p).2 ⟨f, fs, hframes, hpairing⟩)
    rw [if_neg (by simpa using hpairing)]
  · rfl

/-- **One step of the scan.**  Where the directive has a partner the frames follow the stack and
nothing is lost; else it is lost, and the frames stay. -/
theorem Scan.step_eq (s : Scan) (d : Directive) (position : Nat) :
    (∀ ps, advance s.pairings d = some ps →
      (s.step d position).pairings = ps ∧ (s.step d position).loose = s.loose) ∧
    (advance s.pairings d = none → s.step d position = { s with loose := position :: s.loose }) := by
  have hbranch : ∀ d, (d = .elifBranch ∨ d = .elseBranch) → ∀ ps,
      s.pairings.head? = some .conditional → s.pairings = ps →
      (s.step d position).pairings = ps ∧ (s.step d position).loose = s.loose := by
    rintro d hd ps hhead rfl
    obtain ⟨f, fs, hframes, hpairing⟩ := (s.head?_pairings _).1 hhead
    rcases hd with rfl | rfl <;> simp [step, pairings, hframes, hpairing]
  have hstray : ∀ d, (d = .elifBranch ∨ d = .elseBranch) →
      s.pairings.head? ≠ some .conditional →
      s.step d position = { s with loose := position :: s.loose } := by
    rintro d hd hhead
    cases hframes : s.frames with
    | nil => rcases hd with rfl | rfl <;> simp [step, hframes]
    | cons f fs =>
        have hpairing : f.pairing ≠ .conditional := fun hpairing =>
          hhead ((s.head?_pairings _).2 ⟨f, fs, hframes, hpairing⟩)
        rcases hd with rfl | rfl <;> simp [step, hframes, hpairing]
  cases d with
  | ifOpen => simp [advance, step, pairings]
  | regionOpen => simp [advance, step, pairings]
  | elifBranch =>
      by_cases hhead : s.pairings.head? = some .conditional
      · simpa [advance, hhead] using hbranch _ (Or.inl rfl) _ hhead rfl
      · simpa [advance, hhead] using hstray _ (Or.inl rfl) hhead
  | elseBranch =>
      by_cases hhead : s.pairings.head? = some .conditional
      · simpa [advance, hhead] using hbranch _ (Or.inr rfl) _ hhead rfl
      · simpa [advance, hhead] using hstray _ (Or.inr rfl) hhead
  | ifClose =>
      by_cases hhead : s.pairings.head? = some .conditional
      · simpa [advance, hhead, step] using s.close_of_head hhead position
      · simpa [advance, hhead, step] using s.close_of_head_ne hhead position
  | regionClose =>
      by_cases hhead : s.pairings.head? = some .region
      · simpa [advance, hhead, step] using s.close_of_head hhead position
      · simpa [advance, hhead, step] using s.close_of_head_ne hhead position
  | other => simp [advance, step]

/-- Every frame knows the directive that opened it. -/
def Scan.Opened (s : Scan) : Prop := ∀ f ∈ s.frames, f.positions ≠ []

/-- A step keeps that every frame knows its opener. -/
theorem Scan.Opened.step {s : Scan} (h : s.Opened) (d : Directive) (position : Nat) :
    (s.step d position).Opened := by
  obtain ⟨frames, lost⟩ := s
  cases d <;> cases frames <;> grind [Scan.step, Scan.close, Scan.Opened]

/-- A scan only looks at positions that it has passed. -/
theorem Scan.mem_unpaired_step {s : Scan} {d : Directive} {position i : Nat}
    (h : i ∈ (s.step d position).unpaired) : i ∈ s.unpaired ∨ i = position := by
  obtain ⟨frames, lost⟩ := s
  cases d <;> cases frames <;> grind [Scan.step, Scan.close, Scan.unpaired]

/-- A whole scan holds positions that it held before or has passed. -/
theorem Scan.mem_unpaired_run {s : Scan} {position i : Nat} {ds : List Directive}
    (h : i ∈ (s.run position ds).unpaired) : i ∈ s.unpaired ∨ i < position + ds.length := by
  induction ds generalizing s position with
  | nil => exact Or.inl h
  | cons d ds ih =>
      rw [List.length_cons]
      rcases ih h with hstep | hlt
      · rcases mem_unpaired_step hstep with hold | rfl
        · exact Or.inl hold
        · exact Or.inr (by omega)
      · exact Or.inr (by omega)

/-- **A whole scan.**  Where all directives have partners the frames follow the stack and nothing is
lost. -/
theorem Scan.run_of_opens {s : Scan} (position : Nat) {ds : List Directive} {ps : List Pairing}
    (hopened : s.Opened) (h : opens s.pairings ds = some ps) :
    (s.run position ds).pairings = ps ∧ (s.run position ds).loose = s.loose ∧
      (s.run position ds).Opened := by
  induction ds generalizing s position with
  | nil => exact ⟨Option.some.inj h, rfl, hopened⟩
  | cons d ds ih =>
      rw [opens_cons, Option.bind_eq_some_iff] at h
      obtain ⟨middle, hadvance, hrest⟩ := h
      obtain ⟨hpairings, hloose⟩ := (s.step_eq d position).1 middle hadvance
      have hih := ih (position + 1) (hopened.step d position) (hpairings ▸ hrest)
      rwa [hloose] at hih

/-- What has lost its partner is never found one. -/
theorem Scan.loose_ne_nil {s : Scan} (position : Nat) (ds : List Directive) (h : s.loose ≠ []) :
    (s.run position ds).loose ≠ [] := by
  induction ds generalizing s position with
  | nil => exact h
  | cons d ds ih =>
      refine ih (position + 1) ?_
      cases hadvance : advance s.pairings d with
      | some ps =>
          rw [((s.step_eq d position).1 ps hadvance).2]
          exact h
      | none =>
          rw [(s.step_eq d position).2 hadvance]
          exact List.cons_ne_nil _ _

/-- A directive without a partner stays without one. -/
theorem Scan.run_of_stuck {s : Scan} (position : Nat) {ds : List Directive}
    (h : opens s.pairings ds = none) : (s.run position ds).loose ≠ [] := by
  induction ds generalizing s position with
  | nil => cases h
  | cons d ds ih =>
      rw [opens_cons] at h
      cases hadvance : advance s.pairings d with
      | some ps =>
          rw [hadvance, Option.bind_some, ← ((s.step_eq d position).1 ps hadvance).1] at h
          exact ih (position + 1) h
      | none =>
          refine loose_ne_nil (position + 1) ds ?_
          rw [(s.step_eq d position).2 hadvance]
          exact List.cons_ne_nil _ _

/-- **To be balanced is to leave no pair open.** -/
theorem balanced_iff (ds : List Directive) : Balanced ds ↔ opens [] ds = some [] := by
  unfold Balanced loose
  have hopened : (Scan.mk [] []).Opened := by simp [Scan.Opened]
  cases hopens : opens [] ds with
  | none =>
      have hne := Scan.run_of_stuck (s := ⟨[], []⟩) 0 hopens
      simp [Scan.unpaired, hne]
  | some ps =>
      obtain ⟨hpairings, hloose, hpositions⟩ := Scan.run_of_opens 0 hopened hopens
      rw [Scan.unpaired, hloose, List.nil_append, Option.some_inj, ← hpairings, Scan.pairings,
        List.map_eq_nil_iff, List.flatMap_eq_nil_iff]
      constructor
      · intro h
        refine List.eq_nil_iff_forall_not_mem.2 fun f hf => hpositions f hf (h f hf)
      · intro h
        simp [h]

/-! ## Holes -/

/-- A directive looks at the innermost pair only. -/
theorem advance_below {opened final : List Pairing} {d : Directive}
    (h : advance opened d = some final) (below : List Pairing) :
    advance (opened ++ below) d = some (final ++ below) := by
  cases opened <;> cases d <;> grind [advance]

/-- A sequence that gets through a stack does so on top of others. -/
theorem opens_below {opened final : List Pairing} {ds : List Directive}
    (h : opens opened ds = some final) (below : List Pairing) :
    opens (opened ++ below) ds = some (final ++ below) := by
  induction ds generalizing opened with
  | nil =>
      rw [opens_nil, Option.some_inj] at h
      rw [opens_nil, h]
  | cons d ds ih =>
      rw [opens_cons, Option.bind_eq_some_iff] at h
      obtain ⟨middle, hadvance, hrest⟩ := h
      rw [opens_cons, advance_below hadvance, Option.bind_some, ih hrest]

/-- What was open before a directive is known from what is open behind it. -/
theorem advance_injective {opened other final : List Pairing} {d : Directive}
    (h : advance opened d = some final) (h' : advance other d = some final) : opened = other := by
  cases opened <;> cases other <;> cases d <;> grind [advance]

/-- What was open before a sequence is known from what is open behind it. -/
theorem opens_injective {opened other final : List Pairing} {ds : List Directive}
    (h : opens opened ds = some final) (h' : opens other ds = some final) : opened = other := by
  induction ds generalizing opened other with
  | nil => exact Option.some.inj (h.trans h'.symm)
  | cons d ds ih =>
      rw [opens_cons, Option.bind_eq_some_iff] at h h'
      obtain ⟨middle, hadvance, hrest⟩ := h
      obtain ⟨middle', hadvance', hrest'⟩ := h'
      obtain rfl := ih hrest hrest'
      exact advance_injective hadvance hadvance'

/-- A balanced stretch may stand anywhere, or be left out. -/
theorem balanced_insert_iff {before inner after : List Directive} (hinner : Balanced inner) :
    Balanced (before ++ (inner ++ after)) ↔ Balanced (before ++ after) := by
  rw [balanced_iff] at hinner
  have hneutral : ∀ ps, opens ps inner = some ps := fun ps => by
    simpa using opens_below hinner ps
  rw [balanced_iff, balanced_iff, opens_append_eq_some, opens_append_eq_some]
  refine exists_congr fun ps => and_congr_right fun _ => ?_
  rw [opens_append, hneutral, Option.bind_some]

/-- **A hole in a balanced stretch.**  The rest of the sequence cannot make up for what the stretch
loses. -/
theorem balanced_hole_iff {before left hole right after : List Directive}
    (hwhole : Balanced (before ++ ((left ++ (hole ++ right)) ++ after)))
    (hinner : Balanced (left ++ (hole ++ right))) :
    Balanced (before ++ (left ++ (right ++ after))) ↔ Balanced (left ++ right) := by
  have hrest := (balanced_insert_iff hinner).1 hwhole
  rw [balanced_iff] at hinner hrest
  obtain ⟨outer, hbefore, hafter⟩ := opens_append_eq_some.1 hrest
  obtain ⟨first, hleft, hinner⟩ := opens_append_eq_some.1 hinner
  obtain ⟨second, hhole, hright⟩ := opens_append_eq_some.1 hinner
  -- `right` closes what `hole` leaves open, so it fits behind `left` only if that is the same
  have hsame : Balanced (left ++ right) ↔ first = second := by
    rw [balanced_iff, opens_append, hleft, Option.bind_some]
    exact ⟨fun h => opens_injective h hright, fun h => h ▸ hright⟩
  rw [hsame, balanced_iff, opens_append, hbefore, Option.bind_some, opens_append,
    show opens outer left = some (first ++ outer) from opens_below hleft outer, Option.bind_some,
    opens_append_eq_some]
  have hright' : opens (second ++ outer) right = some outer := opens_below hright outer
  constructor
  · rintro ⟨middle, hmiddle, hfinal⟩
    obtain rfl := opens_injective hfinal hafter
    exact List.append_cancel_right (opens_injective hmiddle hright')
  · rintro rfl
    exact ⟨outer, hright', hafter⟩

/-- Directives that need no partner do not matter. -/
theorem opens_filter_isPaired (opened : List Pairing) (ds : List Directive) :
    opens opened (ds.filter isPaired) = opens opened ds := by
  induction ds generalizing opened with
  | nil => rfl
  | cons d ds ih =>
      cases hpaired : isPaired d with
      | true => simp [hpaired, ih]
      | false =>
          obtain rfl : d = .other := by simpa [isPaired] using hpaired
          simp [hpaired, ih, advance]

/-- Directives that need no partner do not matter to balance. -/
theorem balanced_filter_isPaired (ds : List Directive) :
    Balanced (ds.filter isPaired) ↔ Balanced ds := by
  rw [balanced_iff, balanced_iff, opens_filter_isPaired]

/-! ## Directives without a partner -/

/-- The directives at some positions of a sequence. -/
def picked (all : List Directive) (positions : List Nat) : List Directive :=
  positions.filterMap (all[·]?)

/-- The directives at two lists of positions. -/
theorem picked_append (all : List Directive) (is js : List Nat) :
    picked all (is ++ js) = picked all is ++ picked all js := by
  simp [picked]

/-- The directive at one position. -/
theorem picked_singleton {all : List Directive} {n : Nat} {d : Directive} (h : all[n]? = some d) :
    picked all [n] = [d] := by
  simp [picked, h]

/-- The positions without a partner so far, the last one first. -/
def Scan.falling (s : Scan) : List Nat := s.frames.flatMap Open.positions ++ s.loose

/-- What a scan knows before position `n` of a sequence in which, with `before` open at its start,
every directive has a partner.  What it found without one takes `before` to `outer`, and each frame
opens one pair on top; so no frame was open when something was found without a partner. -/
structure Scan.Tracks (all : List Directive) (before : List Pairing) (n : Nat) (s : Scan)
    (outer : List Pairing) : Prop where
  lost : opens before (picked all s.loose.reverse) = some outer
  frame : ∀ f ∈ s.frames, ∀ ps, opens ps (picked all f.positions.reverse) = some (f.pairing :: ps)
  falls : s.falling.Pairwise (· > ·)
  bound : ∀ i ∈ s.falling, i < n

section Tracks

variable {all : List Directive} {before outer : List Pairing} {n : Nat} {s : Scan} {d : Directive}

/-- A new position is behind all those that the scan holds. -/
theorem Scan.Tracks.pairwise_cons (h : s.Tracks all before n outer) :
    (n :: s.falling).Pairwise (· > ·) ∧ ∀ i ∈ n :: s.falling, i < n + 1 := by
  refine ⟨List.pairwise_cons.2 ⟨h.bound, h.falls⟩, fun i hi => ?_⟩
  rcases List.mem_cons.1 hi with rfl | hi
  · exact Nat.lt_succ_self _
  · exact Nat.lt_succ_of_lt (h.bound i hi)

/-- A directive that opens a pair. -/
theorem Scan.Tracks.push (h : s.Tracks all before n outer) (hd : all[n]? = some d) {p : Pairing}
    (hopens : ∀ ps, advance ps d = some (p :: ps)) :
    Scan.Tracks all before (n + 1) { s with frames := ⟨p, [n]⟩ :: s.frames } outer := by
  obtain ⟨hfalls, hbound⟩ := h.pairwise_cons
  refine ⟨h.lost, fun f hf ps => ?_, hfalls, hbound⟩
  rcases List.mem_cons.1 hf with rfl | hf
  · simp [picked_singleton hd, hopens]
  · exact h.frame f hf ps

/-- A directive that continues the innermost pair. -/
theorem Scan.Tracks.extend {f : Open} {fs : List Open} (hframes : s.frames = f :: fs)
    (h : s.Tracks all before n outer) (hd : all[n]? = some d)
    (hopens : ∀ ps, advance (f.pairing :: ps) d = some (f.pairing :: ps)) :
    Scan.Tracks all before (n + 1)
      { s with frames := { f with positions := n :: f.positions } :: fs } outer := by
  obtain ⟨hfalls, hbound⟩ := h.pairwise_cons
  rw [falling, hframes] at hfalls hbound
  refine ⟨h.lost, fun g hg ps => ?_, hfalls, hbound⟩
  rcases List.mem_cons.1 hg with rfl | hg
  · simp [picked_append, picked_singleton hd, h.frame f (by simp [hframes]), hopens]
  · exact h.frame g (by simp [hframes, hg]) ps

/-- A directive that closes the innermost pair. -/
theorem Scan.Tracks.pop {f : Open} {fs : List Open} (hframes : s.frames = f :: fs)
    (h : s.Tracks all before n outer) :
    Scan.Tracks all before (n + 1) { s with frames := fs } outer := by
  have hsublist : (fs.flatMap Open.positions ++ s.loose).Sublist s.falling := by
    rw [falling, hframes, List.flatMap_cons, List.append_assoc]
    exact List.sublist_append_right _ _
  exact ⟨h.lost, fun g hg => h.frame g (by simp [hframes, hg]), h.falls.sublist hsublist,
    fun i hi => Nat.lt_succ_of_lt (h.bound i (hsublist.subset hi))⟩

/-- A directive without a partner, where no frame is open. -/
theorem Scan.Tracks.lose (hframes : s.frames = []) (h : s.Tracks all before n outer)
    (hd : all[n]? = some d) {outer' : List Pairing} (hopens : advance outer d = some outer') :
    Scan.Tracks all before (n + 1) { s with loose := n :: s.loose } outer' := by
  obtain ⟨hfalls, hbound⟩ := h.pairwise_cons
  rw [falling, hframes] at hfalls hbound
  refine ⟨?_, by simp [hframes], by simpa [falling, hframes] using hfalls,
    by simpa [falling, hframes] using hbound⟩
  simp [picked_append, picked_singleton hd, h.lost, hopens]

/-- A directive that needs no partner is passed over. -/
theorem Scan.Tracks.skip (h : s.Tracks all before n outer) : s.Tracks all before (n + 1) outer :=
  ⟨h.lost, h.frame, h.falls, fun i hi => Nat.lt_succ_of_lt (h.bound i hi)⟩

/-- A branch of a conditional: it continues the innermost frame or, with no frame open, is lost. -/
theorem Scan.Tracks.branch (h : s.Tracks all before n outer) (hd : all[n]? = some d)
    (hbranch : d = .elifBranch ∨ d = .elseBranch) {ps : List Pairing}
    (hadvance : advance (s.pairings ++ outer) d = some ps) :
    ∃ outer', (s.step d n).Tracks all before (n + 1) outer' ∧
      ps = (s.step d n).pairings ++ outer' := by
  cases hframes : s.frames with
  | nil =>
      rw [pairings, hframes, List.map_nil, List.nil_append] at hadvance
      refine ⟨ps, ?_, ?_⟩
      · have hlose := h.lose hframes hd hadvance
        rcases hbranch with rfl | rfl <;> simpa [step, hframes] using hlose
      · rcases hbranch with rfl | rfl <;> simp [step, hframes, pairings]
  | cons f fs =>
      have hhead : f.pairing = .conditional ∧ ps = s.pairings ++ outer := by
        rcases hbranch with rfl | rfl <;>
          simpa [advance, pairings, hframes, eq_comm] using hadvance
      obtain ⟨hpairing, rfl⟩ := hhead
      refine ⟨outer, ?_, ?_⟩
      · have hextend := h.extend hframes hd (fun ps => by
          rcases hbranch with rfl | rfl <;> simp [advance, hpairing])
        rcases hbranch with rfl | rfl <;> simpa [step, hframes, hpairing] using hextend
      · rcases hbranch with rfl | rfl <;> simp [step, hframes, pairings, hpairing]

/-- A directive that closes: it closes the innermost frame or, with no frame open, is lost. -/
theorem Scan.Tracks.close (h : s.Tracks all before n outer) (hd : all[n]? = some d) {p : Pairing}
    (hclose : ∀ ps, advance ps d = if ps.head? = some p then some ps.tail else none)
    {ps : List Pairing} (hadvance : advance (s.pairings ++ outer) d = some ps) :
    ∃ outer', (s.close p n).Tracks all before (n + 1) outer' ∧
      ps = (s.close p n).pairings ++ outer' := by
  cases hframes : s.frames with
  | nil =>
      rw [pairings, hframes, List.map_nil, List.nil_append] at hadvance
      refine ⟨ps, ?_, by simp [Scan.close, hframes, pairings]⟩
      simpa [Scan.close, hframes] using h.lose hframes hd hadvance
  | cons f fs =>
      obtain ⟨hpairing, rfl⟩ : f.pairing = p ∧ ps = fs.map Open.pairing ++ outer := by
        simpa [hclose, pairings, hframes, eq_comm] using hadvance
      exact ⟨outer, by simpa [Scan.close, hframes, hpairing] using h.pop hframes,
        by simp [Scan.close, hframes, hpairing, pairings]⟩

/-- **One step keeps track**, as long as the directive has a partner in the whole sequence. -/
theorem Scan.Tracks.step (h : s.Tracks all before n outer) (hd : all[n]? = some d)
    {ps : List Pairing} (hadvance : advance (s.pairings ++ outer) d = some ps) :
    ∃ outer', (s.step d n).Tracks all before (n + 1) outer' ∧
      ps = (s.step d n).pairings ++ outer' := by
  cases d with
  | ifOpen => exact ⟨outer, h.push hd fun _ => rfl, (Option.some.inj hadvance).symm⟩
  | regionOpen => exact ⟨outer, h.push hd fun _ => rfl, (Option.some.inj hadvance).symm⟩
  | elifBranch => exact h.branch hd (Or.inl rfl) hadvance
  | elseBranch => exact h.branch hd (Or.inr rfl) hadvance
  | ifClose => exact h.close hd (fun _ => rfl) hadvance
  | regionClose => exact h.close hd (fun _ => rfl) hadvance
  | other => exact ⟨outer, h.skip, (Option.some.inj hadvance).symm⟩

/-- A whole scan keeps track, by induction on the directives that are left. -/
theorem Scan.Tracks.run {ds : List Directive} {ps : List Pairing}
    (h : s.Tracks all before n outer) (hds : all.drop n = ds)
    (hopens : opens (s.pairings ++ outer) ds = some ps) :
    ∃ outer', (s.run n ds).Tracks all before (n + ds.length) outer' ∧
      ps = (s.run n ds).pairings ++ outer' := by
  induction ds generalizing s n outer with
  | nil => exact ⟨outer, h, (Option.some.inj hopens).symm⟩
  | cons d ds ih =>
      rw [opens_cons, Option.bind_eq_some_iff] at hopens
      obtain ⟨middle, hadvance, hrest⟩ := hopens
      have hd : all[n]? = some d := by
        rw [← List.head?_drop, hds]
        rfl
      obtain ⟨outer', htracks, rfl⟩ := h.step hd hadvance
      have hds' : all.drop (n + 1) = ds := by
        rw [← List.drop_drop, hds]
        rfl
      rw [List.length_cons, Nat.add_comm ds.length, ← Nat.add_assoc]
      exact ih htracks hds' hrest

/-- The directives without a partner open what the sequence does. -/
theorem Scan.Tracks.opens_picked (h : s.Tracks all before n outer) :
    opens before (picked all s.falling.reverse) = some (s.pairings ++ outer) := by
  have hframes : ∀ fs : List Open, (∀ f ∈ fs, f ∈ s.frames) →
      opens outer (picked all (fs.flatMap Open.positions).reverse) =
        some (fs.map Open.pairing ++ outer) := by
    intro fs hfs
    induction fs with
    | nil => simp [picked]
    | cons f fs ih =>
        rw [List.flatMap_cons, List.reverse_append, picked_append, opens_append,
          ih fun g hg => hfs g (List.mem_cons_of_mem f hg), Option.bind_some,
          h.frame f (hfs f List.mem_cons_self)]
        rfl
  rw [falling, List.reverse_append, picked_append, opens_append, h.lost, Option.bind_some]
  exact hframes s.frames fun _ hf => hf

end Tracks

/-- A position without a partner is one of the sequence. -/
theorem lt_length_of_mem_loose {ds : List Directive} {i : Nat} (h : i ∈ loose ds) :
    i < ds.length := by
  rcases Scan.mem_unpaired_run h with hnone | hlt
  · simp [Scan.unpaired] at hnone
  · simpa using hlt

/-! ## The order in which they are found -/

/-- What is found are the positions held, from behind. -/
theorem Scan.found_eq (s : Scan) : s.found = s.falling.reverse := by
  simp [found, falling, List.reverse_flatMap, Function.comp_def]

/-- What is found are the positions without a partner. -/
theorem found_perm (ds : List Directive) : (found ds).Perm (loose ds) := by
  rw [found, Scan.found_eq]
  exact (List.reverse_perm _).trans List.perm_append_comm

/-- What is found is what has no partner. -/
theorem mem_found {ds : List Directive} {i : Nat} : i ∈ found ds ↔ i ∈ loose ds :=
  (found_perm ds).mem_iff

/-- A scan holds no position twice. -/
theorem Scan.nodup_step {s : Scan} {position : Nat} (h : s.unpaired.Nodup)
    (hnew : position ∉ s.unpaired) (d : Directive) : (s.step d position).unpaired.Nodup := by
  obtain ⟨frames, lost⟩ := s
  cases d <;> cases frames <;> grind [Scan.step, Scan.close, Scan.unpaired, List.nodup_append]

/-- A whole scan holds no position twice. -/
theorem Scan.nodup_run {s : Scan} {position : Nat} (h : s.unpaired.Nodup)
    (hold : ∀ i ∈ s.unpaired, i < position) (ds : List Directive) :
    (s.run position ds).unpaired.Nodup := by
  induction ds generalizing s position with
  | nil => exact h
  | cons d ds ih =>
      have hnew : position ∉ s.unpaired := fun hmem => Nat.lt_irrefl _ (hold position hmem)
      refine ih (nodup_step h hnew d) fun i hi => ?_
      rcases mem_unpaired_step hi with hmem | rfl
      · exact Nat.lt_succ_of_lt (hold i hmem)
      · exact Nat.lt_succ_self _

/-- No position is found twice. -/
theorem found_nodup (ds : List Directive) : (found ds).Nodup := by
  refine (found_perm ds).nodup_iff.2 (Scan.nodup_run ?_ ?_ ds)
  · simp [Scan.unpaired]
  · simp [Scan.unpaired]

section Items

variable {α : Type} {directive : α → Directive} {start : α → Nat} {items : List α} {a : α}

/-- The items without a partner are those at the positions found. -/
theorem mem_unbalanced_iff :
    a ∈ unbalanced directive start items ↔
      ∃ i ∈ loose (items.map directive), items[i]? = some a := by
  rw [unbalanced, (sortBy_perm _).mem_iff, List.mem_filterMap]
  simp only [mem_found]

/-- An item without a partner is one of the items. -/
theorem mem_of_mem_unbalanced (h : a ∈ unbalanced directive start items) : a ∈ items := by
  obtain ⟨i, -, hget⟩ := mem_unbalanced_iff.1 h
  exact List.mem_of_getElem? hget

/-- **No item lacks a partner in a balanced sequence, and only there.** -/
theorem unbalanced_eq_nil_iff (directive : α → Directive) (start : α → Nat) (items : List α) :
    unbalanced directive start items = [] ↔ Balanced (items.map directive) := by
  rw [List.eq_nil_iff_forall_not_mem, Balanced, List.eq_nil_iff_forall_not_mem]
  refine ⟨fun h i hi => ?_, fun h a ha => ?_⟩
  · have hlt : i < items.length := by simpa using lt_length_of_mem_loose hi
    exact h items[i] (mem_unbalanced_iff.2 ⟨i, hi, List.getElem?_eq_getElem hlt⟩)
  · obtain ⟨i, hi, -⟩ := mem_unbalanced_iff.1 ha
    exact h i hi

/-- Items at rising positions start one after the other. -/
theorem pairwise_filterMap_getElem? {positions : List Nat} (hrising : positions.Pairwise (· < ·))
    {R : α → α → Prop} (hitems : items.Pairwise R) :
    (positions.filterMap (items[·]?)).Pairwise R := by
  rw [List.pairwise_filterMap]
  refine hrising.imp fun {i j} hij a ha b hb => ?_
  obtain ⟨hi, rfl⟩ := List.getElem?_eq_some_iff.1 ha
  obtain ⟨hj, rfl⟩ := List.getElem?_eq_some_iff.1 hb
  exact List.pairwise_iff_getElem.1 hitems i j hi hj hij

/-- **What has no partner in a stretch opens and closes what the whole stretch does**, wherever the
stretch stands such that all of it finds a partner.  There what lacks a partner is found in the
order of the sequence, so that sorting changes nothing. -/
theorem opens_unbalanced {before final : List Pairing}
    (hstart : items.Pairwise fun a b => start a ≤ start b)
    (h : opens before (items.map directive) = some final) :
    opens before ((unbalanced directive start items).map directive) = some final := by
  have hscan : Scan.Tracks (items.map directive) before 0 ⟨[], []⟩ before :=
    ⟨rfl, by simp, List.Pairwise.nil, by simp [Scan.falling]⟩
  obtain ⟨outer, htracks, rfl⟩ := hscan.run rfl h
  have hrising : (found (items.map directive)).Pairwise (· < ·) := by
    rw [found, Scan.found_eq]
    exact List.pairwise_reverse.2 htracks.falls
  have hsorted : unbalanced directive start items =
      (found (items.map directive)).filterMap (items[·]?) := by
    refine sortBy_eq_self ?_
    simpa only [byNumber, decide_eq_true_eq] using pairwise_filterMap_getElem? hrising hstart
  have hpicked : (unbalanced directive start items).map directive =
      picked (items.map directive) (found (items.map directive)) := by
    rw [hsorted, picked, List.map_filterMap]
    exact List.filterMap_congr fun i _ => by simp
  rw [hpicked, found, Scan.found_eq]
  exact htracks.opens_picked

end Items

end CodeMend.Directive

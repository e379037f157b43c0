import CodeMend.Edit.Indent
import CodeMend.Proofs.Edit.Batch

/-!
# Columns, and what memory holds

The formatter counts columns in machine words.  White space has the columns it was made of whatever
they are (`width_render`), since both sides wrap around alike, and a line is never moved to a word
that counts as negative (`shift_nonneg`).  So nothing is lost by counting in words; but a run breaks
down where white space is too long for memory (`Held`) or for offsets.  `patch_eq_ok_iff` and
`settle_eq_ok_iff` say what a run asks for and that it gets no further without it.
-/

namespace CodeMend

/-- A run is not cancelled unless the caller has asked for it. -/
theorem Cancellation.check_eq_ok {cancel : Cancellation} (h : cancel.requested = false) :
    cancel.check = .ok () := by
  rw [check, h]
  rfl

namespace Failure

@[simp] theorem ofEdit_eq_ok_iff {α : Type} {x : Except EditError α} {a : α} :
    ofEdit x = .ok a ↔ x = .ok a := by
  cases x with
  | error e => exact iff_of_false nofun nofun
  | ok b => simp [ofEdit]

end Failure

namespace Indent

variable {f : FormatterSettings} {d : Document} {spans : List Span} {cancel : Cancellation}
  {moves : Moves} {l : Line} {ls : List Line}

/-! ## Columns and the text that takes them -/

theorem width_append (level : UInt64) (xs ys : List Char) :
    width level (.ofList (xs ++ ys)) = width level (.ofList xs) + width level (.ofList ys) := by
  simp only [width, String.toList_ofList]
  induction xs with
  | nil => exact (UInt64.zero_add _).symm
  | cons x xs ih =>
      simp only [List.cons_append, List.map_cons, List.foldr_cons, ih, UInt64.add_assoc]

/-- A run of one character is as many columns wide as it is long, times the width of the
character, and all of it wraps around. -/
theorem width_replicate (level : UInt64) (c : Char) (n : Nat) :
    width level (.ofList (List.replicate n c)) = .ofNat n * if c == '\t' then level else 1 := by
  simp only [width, String.toList_ofList]
  induction n with
  | zero => exact (UInt64.zero_mul).symm
  | succ n ih =>
      rw [List.replicate_succ, List.map_cons, List.foldr_cons, ih, UInt64.ofNat_add, UInt64.add_mul,
        UInt64.add_comm]
      exact congrArg _ (UInt64.one_mul _).symm

/-- To divide words loses nothing, and what is put together again does not wrap around. -/
theorem div_mul_add_mod (a b : UInt64) : a / b * b + a % b = a := by
  have hdivided := Nat.div_add_mod' a.toNat b.toNat
  have hbelow := Nat.div_mul_le_self a.toNat b.toNat
  have ha := a.toNat_lt
  apply UInt64.toNat_inj.1
  rw [UInt64.toNat_add, UInt64.toNat_mul, UInt64.toNat_div, UInt64.toNat_mod,
    Nat.mod_eq_of_lt (Nat.lt_of_le_of_lt hbelow ha), hdivided, Nat.mod_eq_of_lt ha]

/-- **White space has the columns it was made of.** -/
theorem width_render (f : FormatterSettings) (columns : UInt64) :
    width f.level (render f columns) = columns := by
  rw [render, width_append, width_replicate, width_replicate, UInt64.ofNat_toNat,
    UInt64.ofNat_toNat]
  unfold fill
  cases f.style with
  | spaces => simp
  | tabs => simpa using div_mul_add_mod columns f.level

/-- The bytes of white space can be counted before it is written. -/
theorem utf8ByteSize_render (f : FormatterSettings) (columns : UInt64) :
    (render f columns).utf8ByteSize = size f columns := by
  have hcount {c : Char} (hc : c.utf8Size = 1) (n : Nat) :
      (String.ofList (List.replicate n c)).utf8ByteSize = n := by
    induction n with
    | zero => rfl
    | succ n ih =>
        rw [List.replicate_succ, String.ofList_cons, String.utf8ByteSize_append,
          String.utf8ByteSize_singleton, ih, hc, Nat.add_comm]
  calc (render f columns).utf8ByteSize
      = (String.ofList (List.replicate (fill f columns).1.toNat '\t') ++
          String.ofList (List.replicate (fill f columns).2.toNat ' ')).utf8ByteSize :=
        congrArg _ String.ofList_append
    _ = size f columns := by
        rw [String.utf8ByteSize_append, hcount (by decide), hcount (by decide)]
        rfl

/-- A line that has been moved starts at no negative column. -/
theorem shift_nonneg (columns : UInt64) (move : Int64) : ¬ (shift columns move).toInt64 < 0 := by
  show ¬ (if columns.toInt64 + move < 0 then 0 else (columns.toInt64 + move).toUInt64).toInt64 < 0
  split
  · decide
  · next hmoved => simpa using hmoved

/-- What has not moved stays. -/
theorem shift_zero {columns : UInt64} (h : ¬ columns.toInt64 < 0) : shift columns 0 = columns := by
  simp [shift, h]

/-! ## The white space that a line gets -/

/-- The columns that a run has for a line, and the moves known after it. -/
def wanted (f : FormatterSettings) (spans : List Span) (moves : Moves) (l : Line) :
    Option (UInt64 × Moves) :=
  if inSpans spans l then target? f moves l else none

/-- The indentation that a line gets, and the moves known after it. -/
def given (f : FormatterSettings) (spans : List Span) (moves : Moves) (l : Line) : String × Moves :=
  match wanted f spans moves l with
  | none => (l.indentText, moves)
  | some (columns, moves) => (render f columns, moves)

theorem splice?_indentText (l : Line) : splice? l l.indentText = none := by
  rw [splice?, if_pos (beq_self_eq_true _)]

/-- The step of a run: the columns for one line, and those for the rest. -/
theorem targets_cons (f : FormatterSettings) (spans : List Span) (moves : Moves) (l : Line)
    (ls : List Line) :
    targets f spans moves (l :: ls) =
      ((wanted f spans moves l).map fun t => (l, t.1)).toList ++
        targets f spans (given f spans moves l).2 ls := by
  rw [targets, given, wanted]
  split
  · cases target? f moves l <;> rfl
  · rfl

/-- The step of a run: the change for one line, and those for the rest. -/
theorem splices_cons (f : FormatterSettings) (spans : List Span) (moves : Moves) (l : Line)
    (ls : List Line) :
    splices f spans moves (l :: ls) =
      (splice? l (given f spans moves l).1).toList ++
        splices f spans (given f spans moves l).2 ls := by
  rw [splices, targets_cons, List.filterMap_append, splices, given]
  congr 1
  cases wanted f spans moves l with
  | none => rw [splice?_indentText]; rfl
  | some t => cases hs : splice? l (render f t.1) <;> simp [hs]

/-- Only lines of the run get targets. -/
theorem mem_of_mem_targets {t : Line × UInt64} (h : t ∈ targets f spans moves ls) : t.1 ∈ ls := by
  induction ls generalizing moves with
  | nil => cases h
  | cons l ls ih =>
      rw [targets_cons] at h
      rcases List.mem_append.1 h with h | h
      · obtain ⟨t', -, rfl⟩ := Option.map_eq_some_iff.1 (Option.mem_toList.1 h)
        exact List.mem_cons_self
      · exact List.mem_cons_of_mem _ (ih h)

theorem targets_of_no_spans (f : FormatterSettings) (moves : Moves) (ls : List Line) :
    targets f [] moves ls = [] := by
  induction ls generalizing moves with
  | nil => rfl
  | cons l ls ih => simpa [targets, inSpans] using ih moves

theorem splices_of_no_spans (f : FormatterSettings) (moves : Moves) (ls : List Line) :
    splices f [] moves ls = [] := by
  rw [splices, targets_of_no_spans]
  rfl

/-- The white space of a change is what was asked for. -/
theorem text_of_splice? {text : String} {s : Splice} (h : splice? l text = some s) :
    s.replacement.text = text := by
  rw [splice?] at h
  split at h
  · cases h
  split at h
  · split at h
    · next hempty =>
      obtain rfl := Option.some.inj h
      exact (String.isEmpty_iff.1 hempty).symm
    · obtain rfl := Option.some.inj h
      rfl
  · obtain rfl := Option.some.inj h
    rfl

theorem eq_of_splice?_none {text : String} (h : splice? l text = none) : text = l.indentText := by
  rw [splice?] at h
  split at h
  · next hsame => exact beq_iff_eq.1 hsame
  · split at h
    · split at h <;> cases h
    · cases h

/-! ## What can go wrong -/

/-- Memory holds white space of these columns. -/
def Held (f : FormatterSettings) (columns : UInt64) : Prop := size f columns ≤ maxBytes

/-- A run looks at all lines, of which it asks for none if nothing is marked. -/
theorem targets_looked_at (f : FormatterSettings) (spans : List Span) (ls : List Line) :
    targets f spans [] (if spans.isEmpty then [] else ls) = targets f spans [] ls := by
  cases spans with
  | nil => exact (targets_of_no_spans f [] ls).symm
  | cons span spans => rfl

/-- **What a run asks for**: its patch is that of all lines, and memory holds the white space of each. -/
theorem patch_ok {p : Patch} (h : patch f d spans cancel = .ok p) :
    (∀ t ∈ targets f spans [] (Line.all d.root), Held f t.2) ∧
      p = ⟨d.version, splices f spans [] (Line.all d.root)⟩ := by
  have hchecked (h : (if (targets f spans [] (Line.all d.root)).any
        (fun t => decide (maxBytes < size f t.2)) = true then
          (throw .overflow >>= fun _ : Unit => pure ⟨d.version, splices f spans [] (Line.all d.root)⟩ :
            Except Failure Patch)
        else pure ⟨d.version, splices f spans [] (Line.all d.root)⟩) = .ok p) :
      (∀ t ∈ targets f spans [] (Line.all d.root), Held f t.2) ∧
        p = ⟨d.version, splices f spans [] (Line.all d.root)⟩ := by
    split at h
    · cases h
    · next hheld =>
      refine ⟨fun t ht => ?_, (Except.ok.inj h).symm⟩
      exact Nat.le_of_not_lt fun hlt => hheld (List.any_eq_true.2 ⟨t, ht, decide_eq_true hlt⟩)
  unfold patch splices at h
  simp only [targets_looked_at] at h
  cases hempty : (if spans.isEmpty then [] else Line.all d.root).isEmpty with
  | true =>
      rw [hempty] at h
      exact hchecked h
  | false =>
      rw [hempty] at h
      obtain ⟨-, -, h⟩ := Tree.bind_eq_ok h
      exact hchecked h

/-- A run that is not cancelled gets its patch if memory holds all white space. -/
theorem patch_eq_ok (hcancel : cancel.requested = false)
    (hheld : ∀ t ∈ targets f spans [] (Line.all d.root), Held f t.2) :
    patch f d spans cancel = .ok ⟨d.version, splices f spans [] (Line.all d.root)⟩ := by
  have hnone : (targets f spans [] (Line.all d.root)).any
      (fun t => decide (maxBytes < size f t.2)) = false :=
    List.any_eq_false.2 fun t ht hlt => absurd (hheld t ht) (Nat.not_le.2 (of_decide_eq_true hlt))
  unfold patch splices
  simp only [targets_looked_at, Cancellation.check_eq_ok hcancel, hnone]
  cases (if spans.isEmpty then [] else Line.all d.root).isEmpty <;> rfl

theorem settle_ok {p : Patch} {stamp : Nat} {o : Outcome} (h : settle p d stamp = .ok o) :
    p.apply d stamp = .ok o := by
  unfold settle at h
  split at h
  · cases h
  · exact Failure.ofEdit_eq_ok_iff.1 h

theorem settle_eq_ok {p : Patch} {stamp : Nat} {o : Outcome} (h : p.apply d stamp = .ok o)
    (hsizes : ∀ s ∈ p.splices, s.replacement.length ≤ Patch.maxOffset) : settle p d stamp = .ok o := by
  have hnone : p.splices.any (fun s => decide (Patch.maxOffset < s.replacement.length)) = false :=
    List.any_eq_false.2 fun s hs hlt => absurd (hsizes s hs) (Nat.not_le.2 (of_decide_eq_true hlt))
  rw [settle, hnone, if_neg Bool.false_ne_true, h]
  rfl

/-- A run that goes through has done what its patch says. -/
theorem apply_ok {d' : Document} {stamp : Nat} (h : apply f d spans cancel stamp = .ok d') :
    ∃ p, patch f d spans cancel = .ok p ∧
      (p.splices = [] ∧ d' = d ∨
        p.splices ≠ [] ∧ ∃ o, p.apply d stamp = .ok o ∧ d' = o.document) := by
  unfold apply at h
  obtain ⟨p, hp, h⟩ := Tree.bind_eq_ok h
  refine ⟨p, hp, ?_⟩
  split at h
  · next hempty => exact Or.inl ⟨List.isEmpty_iff.1 hempty, (Except.ok.inj h).symm⟩
  · next hsome =>
    obtain ⟨o, ho, h⟩ := Tree.bind_eq_ok h
    exact Or.inr ⟨fun hnil => hsome (List.isEmpty_iff.2 hnil), o, settle_ok ho, (Except.ok.inj h).symm⟩

end Indent

end CodeMend

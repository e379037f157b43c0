import CodeMend.Syntax.Parse.Lookahead

/-!
# Looking ahead never runs out of rounds

A round of the search behind a type passes a kind or hands on to a search that does.  Three rounds
for each kind are therefore enough, and further rounds find nothing else (`past_settled`).  The
searches leave a row that the kinds they found end with, which is what the count rests on
(`past_suffix`).

So a search can be told without its rounds (`behindType`), and what it passed is told by what it leaves
(`behindType_cases`, `behindName_cases`, `behindArguments_cases`).
-/

namespace CodeMend.Parse

/-! ## Rank specifiers -/

/-- A row behind one kind at the front of a row that `ks` ends with. -/
theorem suffix_behind {k : Kind} {rest ks : List Kind} (h : k :: rest <:+ ks) : rest <:+ ks :=
  (List.suffix_cons k rest).trans h

/-- What is left behind rank specifiers is a suffix. -/
theorem pastRanks_suffix (n : Nat) (ks : List Kind) : pastRanks n ks <:+ ks := by
  fun_induction pastRanks n ks with
  | case1 n ks rest hdrop ih =>
      have hrest : rest <:+ ks :=
        suffix_behind (hdrop ▸ List.dropWhile_suffix (l := ks) (· == Kind.comma))
      exact (ih.trans hrest).trans (List.suffix_cons _ _)
  | case2 => exact List.suffix_refl _
  | case3 => exact List.suffix_refl _

/-- One try for each kind is enough to get past all rank specifiers. -/
theorem pastRanks_settled (n m : Nat) (ks : List Kind) (hn : ks.length ≤ n) (hm : n ≤ m) :
    pastRanks m ks = pastRanks n ks := by
  fun_induction pastRanks n ks generalizing m with
  | case1 n ks rest hdrop ih =>
      obtain ⟨m, rfl⟩ : ∃ k, m = k + 1 := ⟨m - 1, by omega⟩
      have hle := (List.dropWhile_sublist (l := ks) (· == Kind.comma)).length_le
      rw [hdrop, List.length_cons] at hle
      rw [List.length_cons] at hn
      simp only [pastRanks, hdrop]
      exact ih m (by omega) (by omega)
  | case2 n ks hdrop =>
      obtain ⟨m, rfl⟩ : ∃ k, m = k + 1 := ⟨m - 1, by omega⟩
      rw [pastRanks]
      split
      · next rest hrest => exact absurd hrest (hdrop rest)
      · rfl
  | case3 n ks hother =>
      rw [pastRanks]
      intro fuel rest hfuel hks
      subst hks
      rw [List.length_cons] at hn
      exact hother (n - 1) rest (by omega) rfl

theorem pastTypeSuffix_suffix (nullable : Bool) (ks : List Kind) :
    pastTypeSuffix nullable ks <:+ ks := by
  unfold pastTypeSuffix
  split
  · exact (pastRanks_suffix _ _).trans (List.suffix_cons _ _)
  · exact pastRanks_suffix _ _

/-! ## Types, names and type arguments -/

/-- What is left behind an optional part is a suffix, if it is behind the part. -/
theorem pastOptional_suffix {past : List Kind → Option (List Kind)} {ks found : List Kind}
    (hpast : ∀ ks rest, past ks = some rest → rest <:+ ks) (h : pastOptional past ks = some found) :
    found <:+ ks := by
  unfold pastOptional at h
  split at h
  · exact (hpast _ _ h).trans (List.suffix_cons _ _)
  · obtain rfl := Option.some.inj h
    exact List.suffix_refl _

theorem pastOptional_congr {past later : List Kind → Option (List Kind)} {ks : List Kind}
    (h : ∀ rest, rest.length < ks.length → later rest = past rest) :
    pastOptional later ks = pastOptional past ks := by
  unfold pastOptional
  split
  · next rest => exact h rest (Nat.lt_succ_self _)
  · rfl

/-- What is left behind a type, a name or type arguments is a suffix of the kinds, by induction
on the depth for all three at once. -/
theorem past_suffix (n : Nat) :
    (∀ nullable ks rest, pastTypeIn n nullable ks = some rest → rest <:+ ks) ∧
    (∀ ks rest, pastNameIn n ks = some rest → rest <:+ ks) ∧
    (∀ ks rest, pastTypeArgumentsIn n ks = some rest → rest <:+ ks) := by
  induction n with
  | zero => simp [pastTypeIn, pastNameIn, pastTypeArgumentsIn]
  | succ n ih =>
      obtain ⟨htype, hname, harguments⟩ := ih
      refine ⟨fun nullable ks rest h => ?_, fun ks rest h => ?_, fun ks rest h => ?_⟩
      · rw [pastTypeIn.eq_def] at h
        dsimp only at h
        split at h
        · next more =>
          obtain ⟨found, hfound, rfl⟩ := Option.map_eq_some_iff.1 h
          exact ((pastTypeSuffix_suffix _ _).trans (hname more found hfound)).trans
            (List.suffix_cons _ _)
        · next k more _ =>
          split at h
          · obtain rfl := Option.some.inj h
            exact (pastTypeSuffix_suffix _ _).trans (List.suffix_cons _ _)
          · exact absurd h (by simp)
        · exact absurd h (by simp)
      · have hbehind : ∀ found, pastOptional (pastTypeArgumentsIn n) ks = some found →
            found <:+ ks := fun found => pastOptional_suffix harguments
        rw [pastNameIn] at h
        split at h
        · next more hmore =>
          exact (hname _ _ h).trans (suffix_behind (suffix_behind (hbehind _ hmore)))
        · exact hbehind rest h
      · rw [pastTypeArgumentsIn] at h
        split at h
        · next more hmore =>
          exact (harguments _ _ h).trans (suffix_behind (htype _ _ _ hmore))
        · next more hmore =>
          obtain rfl := Option.some.inj h
          exact suffix_behind (htype _ _ _ hmore)
        · exact absurd h (by simp)

/-- **Rounds settle the search**: once there are three for each kind, more of them find nothing
else. -/
theorem past_settled (n : Nat) :
    (∀ m nullable ks, 3 * ks.length + 1 ≤ n → n ≤ m →
      pastTypeIn m nullable ks = pastTypeIn n nullable ks) ∧
    (∀ m ks, 3 * ks.length + 1 ≤ n → n ≤ m → pastNameIn m ks = pastNameIn n ks) ∧
    (∀ m ks, 3 * ks.length + 2 ≤ n → n ≤ m →
      pastTypeArgumentsIn m ks = pastTypeArgumentsIn n ks) := by
  induction n with
  | zero => exact ⟨fun _ _ _ h => by omega, fun _ _ h => by omega, fun _ _ h => by omega⟩
  | succ n ih =>
      obtain ⟨htype, hname, harguments⟩ := ih
      refine ⟨fun m nullable ks hn hm => ?_, fun m ks hn hm => ?_, fun m ks hn hm => ?_⟩ <;>
        obtain ⟨m, rfl⟩ : ∃ k, m = k + 1 := ⟨m - 1, by omega⟩
      · rw [pastTypeIn.eq_def, pastTypeIn.eq_def]
        dsimp only
        split
        · next more =>
          rw [List.length_cons] at hn
          rw [hname m more (by omega) (by omega)]
        · rfl
        · rfl
      · have hbehind : pastOptional (pastTypeArgumentsIn m) ks =
            pastOptional (pastTypeArgumentsIn n) ks :=
          pastOptional_congr fun more hmore => harguments m more (by omega) (by omega)
        rw [pastNameIn, pastNameIn, hbehind]
        split
        · next more hmore =>
          have hle := (pastOptional_suffix (past_suffix n).2.2 hmore).length_le
          simp only [List.length_cons] at hle
          exact hname m more (by omega) (by omega)
        · rfl
      · rw [pastTypeArgumentsIn, pastTypeArgumentsIn, htype m true ks (by omega) (by omega)]
        split
        · next more hmore =>
          have hle := ((past_suffix n).1 _ _ _ hmore).length_le
          rw [List.length_cons] at hle
          exact harguments m more (by omega) (by omega)
        · rfl
        · rfl

theorem pastType_settled (nullable : Bool) (ts : List Token) {n : Nat}
    (hn : enough (kinds ts) ≤ n) : pastTypeIn n nullable (kinds ts) = pastType nullable ts :=
  (past_settled _).1 n nullable (kinds ts) (by unfold enough; omega) hn

theorem pastTypeArguments_settled (ks : List Kind) {n : Nat} (hn : enough ks ≤ n) :
    pastTypeArgumentsIn n ks = pastTypeArgumentsIn (enough ks) ks :=
  (past_settled _).2.2 n ks (by unfold enough; omega) hn

/-- What looks like a type starts like one. -/
theorem startsType_of_pastType {nullable : Bool} {ts : List Token}
    (h : (pastType nullable ts).isSome = true) : startsType ts = true := by
  have hrounds : enough (kinds ts) = (3 * (kinds ts).length + 2) + 1 := rfl
  rw [pastType, hrounds, pastTypeIn.eq_def] at h
  dsimp only at h
  unfold startsType current nth
  split at h
  · next hkinds => simp [hkinds]
  · next hkinds =>
    split at h
    · next hpredefined => simp [hkinds, hpredefined]
    · cases h
  · cases h

/-! ## Searches without their rounds -/

/-- The kinds behind the type at the front. -/
def behindType (ks : List Kind) : Option (List Kind) := pastTypeIn (enough ks) true ks

/-- The kinds behind the type arguments and further parts of a dotted name. -/
def behindName (ks : List Kind) : Option (List Kind) := pastNameIn (enough ks) ks

/-- The kinds behind type arguments whose `<` has been passed. -/
def behindArguments (ks : List Kind) : Option (List Kind) := pastTypeArgumentsIn (enough ks) ks

theorem behindType_suffix {ks found : List Kind} (h : behindType ks = some found) : found <:+ ks :=
  (past_suffix _).1 _ _ _ h

theorem behindArguments_suffix {ks found : List Kind} (h : behindArguments ks = some found) :
    found <:+ ks := (past_suffix _).2.2 _ _ h

/-- A type is a name or a predefined type, with what may follow either. -/
theorem behindType_cases {ks found : List Kind} (h : behindType ks = some found) :
    (∃ rest mid, ks = .ident :: rest ∧ behindName rest = some mid ∧
      found = pastTypeSuffix true mid) ∨
    ∃ k rest, ks = k :: rest ∧ k.isPredefinedType = true ∧ found = pastTypeSuffix true rest := by
  have hrounds : enough ks = (3 * ks.length + 2) + 1 := rfl
  rw [behindType, hrounds, pastTypeIn.eq_def] at h
  dsimp only at h
  split at h
  · next rest =>
    obtain ⟨mid, hmid, rfl⟩ := Option.map_eq_some_iff.1 h
    refine .inl ⟨rest, mid, rfl, ?_, rfl⟩
    rw [behindName, ← hmid]
    refine ((past_settled _).2.1 _ rest ?_ ?_).symm <;> simp only [enough, List.length_cons] <;> omega
  · next k rest _ =>
    split at h
    · next hpredefined => exact .inr ⟨k, rest, rfl, hpredefined, (Option.some.inj h).symm⟩
    · cases h
  · cases h

/-- Behind the type arguments of a part of a name there is a further part, or the name ends. -/
theorem behindName_cases {ks found : List Kind} (h : behindName ks = some found) :
    ∃ mid, pastOptional behindArguments ks = some mid ∧
      ((∃ rest, mid = .dot :: .ident :: rest ∧ behindName rest = some found) ∨
        (∀ rest, mid ≠ .dot :: .ident :: rest) ∧ mid = found) := by
  have hrounds : enough ks = (3 * ks.length + 2) + 1 := rfl
  have hoptional : pastOptional (pastTypeArgumentsIn (3 * ks.length + 2)) ks =
      pastOptional behindArguments ks :=
    pastOptional_congr fun rest hrest => pastTypeArguments_settled rest (by unfold enough; omega)
  rw [behindName, hrounds, pastNameIn, hoptional] at h
  split at h
  · next rest hmid =>
    refine ⟨_, hmid, .inl ⟨rest, rfl, ?_⟩⟩
    have hle := (pastOptional_suffix (fun _ _ => behindArguments_suffix) hmid).length_le
    simp only [List.length_cons] at hle
    rw [behindName, ← h]
    refine ((past_settled _).2.1 _ rest ?_ ?_).symm <;> unfold enough <;> omega
  · next hother =>
    exact ⟨found, h, .inr ⟨fun rest heq => hother rest (heq ▸ h), rfl⟩⟩

/-- Behind a type argument there is a comma and a further one, or the closing bracket. -/
theorem behindArguments_cases {ks found : List Kind} (h : behindArguments ks = some found) :
    (∃ rest, behindType ks = some (.comma :: rest) ∧ behindArguments rest = some found) ∨
      behindType ks = some (.gt :: found) := by
  have hrounds : enough ks = (3 * ks.length + 2) + 1 := rfl
  have htype : pastTypeIn (3 * ks.length + 2) true ks = behindType ks :=
    ((past_settled _).1 _ true ks (by omega) (by unfold enough; omega)).symm
  rw [behindArguments, hrounds, pastTypeArgumentsIn, htype] at h
  split at h
  · next rest hrest =>
    refine .inl ⟨rest, hrest, ?_⟩
    have hle := (behindType_suffix hrest).length_le
    simp only [List.length_cons] at hle
    rw [← h]
    exact (pastTypeArguments_settled rest (by unfold enough; omega)).symm
  · next rest hrest => exact .inr (by rw [hrest, Option.some.inj h])
  · cases h

end CodeMend.Parse

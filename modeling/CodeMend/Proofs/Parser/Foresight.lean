import CodeMend.Proofs.Parser.Shape

/-!
# What is foreseen of a type is what is read

The search behind a type runs over kinds; the rule for types takes tokens.  They are written
separately, and they agree: where the search finds the end of a type, the rule takes the tokens up to
there, has nothing to complain about and builds one node (`typePhrase_foresees`).

`Passes p xs ys` says that `p` gets from the kinds `xs` to the kinds `ys`.  The lemmas follow the
combinators, and then the two recognisers step by step: rank specifiers, type arguments, the parts of a
name, types.  Type arguments hold types again, with fewer kinds ahead, so the induction is on the number
of kinds (`unfold_foresees`).

The recognisers part in one place.  The rule starts to read a rank specifier at `[` and a comma, and the
search passes one only if it is closed; so nothing is said where the end is followed by `[` and a comma
(`Ranked`).
-/

namespace CodeMend.Parse

open Tree

/-! ## Steps between kinds -/

/-- The step takes tokens until `ks` are the kinds ahead, and has nothing to complain about. -/
structure Step.Leaves (s : Step) (ts : List Token) (ks : List Kind) : Prop where
  tiles : ∃ taken, s.Tiles ts taken
  left : kinds s.rest = ks
  silent : s.errors = []

/-- Where the kinds `xs` are ahead, `p` takes tokens until `ys` are. -/
def Passes (p : Parser) (xs ys : List Kind) : Prop := ∀ ts, kinds ts = xs → (p ts).Leaves ts ys

/-- A step that leaves some kinds, and a parser that passes from them on. -/
theorem Step.Leaves.andThen {s : Step} {p : Parser} {ts : List Token} {ks more : List Kind}
    (hs : s.Leaves ts ks) (hp : Passes p ks more) : (s.andThen p).Leaves ts more := by
  obtain ⟨taken, htaken⟩ := hs.tiles
  have hrest := hp s.rest hs.left
  obtain ⟨further, hfurther⟩ := hrest.tiles
  exact ⟨⟨_, htaken.andThen hfurther⟩, hrest.left, Step.andThen_errors.2 ⟨hs.silent, hrest.silent⟩⟩

/-- What is ahead at a place, told by the kinds. -/
theorem nth_of_kinds {ts : List Token} {ks : List Kind} (h : kinds ts = ks) (n : Nat) :
    nth n ts = ks[n]?.getD .endOfFile := by rw [nth, h]

/-- What is next, told by the kinds. -/
theorem ahead_of_kinds {ts : List Token} {ks : List Kind} (h : kinds ts = ks) (k : Kind) :
    ahead k ts = (ks[0]?.getD .endOfFile == k) := by rw [ahead, current, nth_of_kinds h]

/-- Whether a kind is ahead at a place, told by the kinds. -/
theorem aheadAt_of_kinds {ts : List Token} {ks : List Kind} (h : kinds ts = ks) (n : Nat) (k : Kind) :
    aheadAt n k ts = (ks[n]?.getD .endOfFile == k) := by rw [aheadAt, nth_of_kinds h]

/-- There are no more kinds ahead than tokens. -/
theorem kinds_length_le (ts : List Token) : (kinds ts).length ≤ ts.length := by
  rw [kinds, List.length_map]
  exact List.length_filter_le _ _

section Combinators

variable {p q : Parser} {ps : List Parser} {look : Look} {turn : List Token → Turn}
variable {xs ys zs : List Kind} {k : Kind}

/-- Where nothing is taken. -/
theorem leaves_of_idle (ts : List Token) (cut : Bool) : Step.Leaves ⟨[], [], ts, cut⟩ ts (kinds ts) :=
  ⟨⟨[], .nil rfl ts⟩, rfl, rfl⟩

/-- Doing nothing passes nothing. -/
theorem done_passes (xs : List Kind) : Passes done xs xs := by
  rintro ts rfl
  exact leaves_of_idle ts false

/-- Parsers in order pass one stretch after the other. -/
theorem Passes.cons (hp : Passes p xs ys) (hps : Passes (all ps) ys zs) :
    Passes (all (p :: ps)) xs zs := fun ts hts => (hp ts hts).andThen hps

/-- A single parser as a sequence. -/
theorem Passes.single (hp : Passes p xs ys) : Passes (all [p]) xs ys := hp.cons (done_passes ys)

/-- Taking a token passes one kind. -/
theorem bump_passes (hk : k ≠ .endOfFile) (xs : List Kind) : Passes bump (k :: xs) xs := by
  intro ts hts
  have hend : atEnd ts = false := by simpa [atEnd, ahead_of_kinds hts] using hk
  obtain ⟨text, rest, hbump⟩ := bump_eq hend
  exact ⟨(bump_faithful ts).tiles, by rw [kinds_bump hend, hts]; rfl, by rw [hbump]⟩

/-- A choice passes what its first branch passes, where the test holds. -/
theorem Passes.either_pos (hp : Passes p xs ys) (hlook : ∀ ts, kinds ts = xs → look ts = true) :
    Passes (either look p q) xs ys := by
  intro ts hts
  rw [either, if_pos (hlook ts hts)]
  exact hp ts hts

/-- A choice passes what its second branch passes, where the test fails. -/
theorem Passes.either_neg (hq : Passes q xs ys) (hlook : ∀ ts, kinds ts = xs → look ts = false) :
    Passes (either look p q) xs ys := by
  intro ts hts
  rw [either, if_neg (by simp [hlook ts hts])]
  exact hq ts hts

/-- An optional part is left out where the test fails. -/
theorem given_passes_none (hlook : ∀ ts, kinds ts = xs → look ts = false) :
    Passes (given look p) xs xs := (done_passes xs).either_neg hlook

/-- The kind that is expected is passed. -/
theorem expect_passes (hk : k ≠ .endOfFile) (xs : List Kind) : Passes (expect k) (k :: xs) xs :=
  (bump_passes hk xs).either_pos fun ts hts => by simp [ahead_of_kinds hts]

/-- A node passes what stands below it. -/
theorem node_passes (hps : Passes (all ps) xs ys) : Passes (node k ps) xs ys := by
  intro ts hts
  have hflush : (flush ts).Leaves ts xs :=
    ⟨(flush_faithful ts).tiles, by rw [kinds_flush, hts], rfl⟩
  rw [node, all_pair]
  refine hflush.andThen fun us hus => ?_
  obtain ⟨⟨taken, htaken⟩, hleft, hsilent⟩ := hps us hus
  refine ⟨⟨taken, htaken.split, ?_, htaken.inside⟩, hleft, hsilent⟩
  show tokensAll [.node k (all ps us).built] = _
  rw [← htaken.stored]
  simp [tokensAll, tokens]

/-! ### Loops -/

/-- A loop whose test fails passes nothing. -/
theorem turns_passes_stop (hlook : ∀ ts, kinds ts = xs → look ts = false) (n : Nat) :
    Passes (turns look turn n) xs xs := by
  cases n with
  | zero => exact given_passes_none hlook
  | succ n =>
      intro ts hts
      unfold turns
      rw [if_neg (by simp [hlook ts hts])]
      exact done_passes xs ts hts

/-- A loop without turns takes nothing, cut or not. -/
theorem turns_passes_zero (xs : List Kind) : Passes (turns look turn 0) xs xs := by
  rintro ts rfl
  unfold turns given either
  split <;> exact leaves_of_idle ts _

/-- A turn that asks for another. -/
theorem turns_passes_next {n : Nat} (hlook : ∀ ts, kinds ts = xs → look ts = true)
    (hturn : ∀ ts, kinds ts = xs → (turn ts).again = true ∧ (turn ts).step.Leaves ts ys)
    (hrest : Passes (turns look turn n) ys zs) : Passes (turns look turn (n + 1)) xs zs := by
  intro ts hts
  obtain ⟨hagain, hstep⟩ := hturn ts hts
  unfold turns
  rw [if_pos (hlook ts hts)]
  dsimp only
  rw [if_pos hagain]
  exact hstep.andThen hrest

/-- A turn that asks for no other. -/
theorem turns_passes_last {n : Nat} (hlook : ∀ ts, kinds ts = xs → look ts = true)
    (hturn : ∀ ts, kinds ts = xs → (turn ts).again = false ∧ (turn ts).step.Leaves ts ys) :
    Passes (turns look turn (n + 1)) xs ys := by
  intro ts hts
  obtain ⟨hagain, hstep⟩ := hturn ts hts
  unfold turns
  rw [if_pos (hlook ts hts)]
  dsimp only
  rw [if_neg (by simp [hagain])]
  exact hstep

/-- A loop has a turn for every kind. -/
theorem loop_passes (h : ∀ n, xs.length ≤ n → Passes (turns look turn n) xs ys) :
    Passes (loop look turn) xs ys := by
  intro ts hts
  exact h ts.length (hts ▸ kinds_length_le ts) ts hts

end Combinators

/-! ## Rank specifiers -/

/-- Kinds at whose front the rule for types, but not the search, starts to read a rank specifier. -/
def Ranked (ks : List Kind) : Prop := [.lBracket, .comma] <+: ks

/-- The loop over commas passes all of them, as the search does. -/
theorem commas_passes (ks : List Kind) :
    Passes (repeatWhile (ahead .comma) bump) ks (ks.dropWhile (· == .comma)) := by
  refine loop_passes fun n hn => ?_
  induction ks generalizing n with
  | nil => exact turns_passes_stop (fun ts hts => by simp [ahead_of_kinds hts]) n
  | cons k ks ih =>
      by_cases hk : k = .comma
      · subst hk
        obtain ⟨n, rfl⟩ : ∃ m, n = m + 1 := ⟨n - 1, by rw [List.length_cons] at hn; omega⟩
        have hbump : Passes bump (.comma :: ks) ks := bump_passes (by decide) ks
        refine turns_passes_next (fun ts hts => by simp [ahead_of_kinds hts])
          (fun ts hts => ⟨rfl, hbump ts hts⟩) ?_
        simpa using ih n (by simpa using hn)
      · have hstays : (k :: ks).dropWhile (· == .comma) = k :: ks := by simp [hk]
        rw [hstays]
        exact turns_passes_stop (fun ts hts => by simp [ahead_of_kinds hts, hk]) n

/-- A rank specifier is passed whole, if its commas end at a bracket. -/
theorem rank_passes {ks rest : List Kind} (h : ks.dropWhile (· == .comma) = .rBracket :: rest) :
    Passes rank (.lBracket :: ks) rest :=
  (bump_passes (by decide) ks).cons ((commas_passes ks).cons (Passes.single (by
    rw [h]
    exact expect_passes (by decide) rest)))

/-- Does a rank specifier come next, as the rule for types sees it? -/
def atRank : Look := fun ts => ahead .lBracket ts && (aheadAt 1 .rBracket ts || aheadAt 1 .comma ts)

/-- All rank specifiers are passed that the search passes, by induction on how many it tries.
The rule starts to read one wherever a comma stands behind a bracket, so what is left must not
look like that. -/
theorem ranks_passes (n : Nat) (ks : List Kind) (h : ¬ Ranked (pastRanks n ks)) :
    Passes (turns atRank (fun ts => ⟨rank ts, true⟩) n) ks (pastRanks n ks) := by
  fun_induction pastRanks n ks with
  | case1 n ks rest hdrop ih =>
      refine turns_passes_next (fun ts hts => ?_) (fun ts hts => ⟨rfl, rank_passes hdrop ts hts⟩)
        (ih h)
      cases ks with
      | nil => cases hdrop
      | cons k ks =>
          by_cases hk : k = .comma
          · simp [atRank, ahead_of_kinds hts, aheadAt_of_kinds hts, hk]
          · obtain ⟨rfl, -⟩ : k = .rBracket ∧ ks = rest := by simpa [hk] using hdrop
            simp [atRank, ahead_of_kinds hts, aheadAt_of_kinds hts]
  | case2 n ks hdrop =>
      refine turns_passes_stop (fun ts hts => ?_) (n + 1)
      cases ks with
      | nil => simp [atRank, aheadAt_of_kinds hts]
      | cons k ks =>
          have hcomma : k ≠ .comma := fun hk => h ⟨ks, by rw [hk]; rfl⟩
          have hclosed : k ≠ .rBracket := fun hk => hdrop ks (by simp [hk])
          simp [atRank, aheadAt_of_kinds hts, hcomma, hclosed]
  | case3 n ks hother =>
      cases n with
      | zero => exact turns_passes_zero ks
      | succ n =>
          refine turns_passes_stop (fun ts hts => ?_) (n + 1)
          cases ks with
          | nil => simp [atRank, ahead_of_kinds hts]
          | cons k ks =>
              have hk : k ≠ .lBracket := fun hk => hother n ks rfl (by rw [hk])
              simp [atRank, ahead_of_kinds hts, hk]

/-- What may follow the name of a type. -/
theorem typeSuffix_passes {ks : List Kind} (h : ¬ Ranked (pastTypeSuffix true ks)) :
    Passes (all [eat .question, repeatWhile atRank rank]) ks (pastTypeSuffix true ks) := by
  have hranks {ks : List Kind} (hks : ¬ Ranked (pastRanks ks.length ks)) :
      Passes (all [repeatWhile atRank rank]) ks (pastRanks ks.length ks) :=
    Passes.single (loop_passes fun n hn => by
      have hsame := pastRanks_settled ks.length n ks (Nat.le_refl _) hn
      rw [← hsame] at hks ⊢
      exact ranks_passes n ks hks)
  cases ks with
  | nil => exact Passes.cons (given_passes_none fun ts hts => by simp [ahead_of_kinds hts]) (hranks h)
  | cons k rest =>
      by_cases hk : k = .question
      · subst hk
        have hrest : ¬ Ranked (pastRanks rest.length rest) := h
        refine Passes.cons ?_ (hranks hrest)
        exact (bump_passes (by decide) rest).either_pos fun ts hts => by simp [ahead_of_kinds hts]
      · have hsame : pastTypeSuffix true (k :: rest) = pastRanks (k :: rest).length (k :: rest) := by
          unfold pastTypeSuffix
          split
          · next heq => exact absurd (List.cons.inj heq).1 hk
          · rfl
        rw [hsame] at h ⊢
        exact Passes.cons (given_passes_none fun ts hts => by simp [ahead_of_kinds hts, hk]) (hranks h)

/-! ## Types -/

/-- Where fewer than `m` kinds are ahead, `p` takes the type that the search finds. -/
def Foresees (m : Nat) (p : Parser) : Prop :=
  ∀ xs ys, xs.length < m → behindType xs = some ys → ¬ Ranked ys → Passes p xs ys

section Grammar

variable {self : Rule → Parser} {m : Nat}

/-- Types with commas between them, up to the closing bracket. -/
theorem separated_passes (hself : Foresees m (self .type)) {xs ys : List Kind} (hxs : xs.length < m)
    (h : behindArguments xs = some ys) : Passes (separated (self .type)) xs (.gt :: ys) := by
  refine loop_passes fun n hn => ?_
  induction n generalizing xs with
  | zero =>
      rw [List.eq_nil_of_length_eq_zero (Nat.le_zero.1 hn)] at h
      cases h
  | succ n ih =>
      rcases behindArguments_cases h with ⟨rest, htype, hrest⟩ | htype
      · have hitem := hself _ _ hxs htype (by simp [Ranked])
        have hle := (behindType_suffix htype).length_le
        rw [List.length_cons] at hle
        refine turns_passes_next (fun _ _ => rfl) (fun ts hts => ?_) (ih (by omega) hrest (by omega))
        have hcomma : ahead .comma (self .type ts).rest = true := by
          simp [ahead_of_kinds (hitem ts hts).left]
        unfold commaTurn
        dsimp only
        rw [if_pos hcomma]
        exact ⟨rfl, (hitem ts hts).andThen (bump_passes (by decide) rest)⟩
      · have hitem := hself _ _ hxs htype (by simp [Ranked])
        refine turns_passes_last (fun _ _ => rfl) fun ts hts => ?_
        have hcomma : ahead .comma (self .type ts).rest = false := by
          simp [ahead_of_kinds (hitem ts hts).left]
        unfold commaTurn
        dsimp only
        rw [if_neg (by simp [hcomma])]
        exact ⟨rfl, (hitem ts hts).andThen (done_passes _)⟩

/-- Type arguments are passed up to their closing bracket. -/
theorem typeArguments_passes (hself : Foresees m (self .type)) {xs ys : List Kind}
    (hxs : xs.length < m) (h : behindArguments xs = some ys) :
    Passes (typeArguments self) (.lt :: xs) ys :=
  node_passes ((bump_passes (by decide) xs).cons ((separated_passes hself hxs h).cons
    (expect_passes (by decide) ys).single))

/-- Type arguments, if there are any. -/
theorem optionalArguments_passes (hself : Foresees m (self .type)) {xs ys : List Kind}
    (hxs : xs.length ≤ m) (h : pastOptional behindArguments xs = some ys) :
    Passes (given atTypeArguments (typeArguments self)) xs ys := by
  unfold pastOptional at h
  split at h
  · next rest =>
    refine (typeArguments_passes hself hxs h).either_pos fun ts hts => ?_
    have hfound : (pastTypeArgumentsIn (enough rest) rest).isSome = true :=
      Option.isSome_iff_exists.2 ⟨ys, h⟩
    simpa [atTypeArguments, hts] using hfound
  · next hother =>
    obtain rfl := Option.some.inj h
    refine given_passes_none fun ts hts => ?_
    unfold atTypeArguments
    split
    · next rest hrest => exact absurd (hts.symm.trans hrest) (hother rest)
    · rfl

/-- The parts of a name. -/
theorem typeNameTail_passes (hself : Foresees m (self .type)) {xs ys : List Kind} (hxs : xs.length ≤ m)
    (h : behindName xs = some ys) : Passes (typeNameTail self) xs ys := by
  refine loop_passes fun n hn => ?_
  induction n generalizing xs with
  | zero =>
      rw [List.eq_nil_of_length_eq_zero (Nat.le_zero.1 hn)] at h ⊢
      obtain rfl : ys = [] := (Option.some.inj h).symm
      exact turns_passes_zero []
  | succ n ih =>
      obtain ⟨mid, hmid, hnext⟩ := behindName_cases h
      have harguments := optionalArguments_passes hself hxs hmid
      rcases hnext with ⟨rest, rfl, hrest⟩ | ⟨hother, rfl⟩
      · have hle := (pastOptional_suffix (fun _ _ => behindArguments_suffix) hmid).length_le
        simp only [List.length_cons] at hle
        refine turns_passes_next (fun _ _ => rfl) (fun ts hts => ?_) (ih (by omega) hrest (by omega))
        have hleft := (harguments ts hts).left
        rw [if_pos (by simp [ahead_of_kinds hleft, aheadAt_of_kinds hleft])]
        exact ⟨rfl, (harguments ts hts).andThen ((bump_passes (by decide) _).cons
          (bump_passes (by decide) rest).single)⟩
      · refine turns_passes_last (fun _ _ => rfl) fun ts hts => ?_
        have hleft := (harguments ts hts).left
        have hend : (ahead .dot (given atTypeArguments (typeArguments self) ts).rest &&
            aheadAt 1 .ident (given atTypeArguments (typeArguments self) ts).rest) = false := by
          rw [ahead_of_kinds hleft, aheadAt_of_kinds hleft]
          match mid, hother with
          | [], _ => rfl
          | [_], _ => simp
          | a :: b :: rest, hother =>
              simp only [List.getElem?_cons_zero, Option.getD_some, List.getElem?_cons_succ,
                Bool.and_eq_false_iff, beq_eq_false_iff_ne]
              by_contra hboth
              simp only [not_or, not_not] at hboth
              exact hother rest (by rw [hboth.1, hboth.2])
        rw [if_neg (by simp only [hend]; exact Bool.false_ne_true)]
        exact ⟨rfl, harguments ts hts⟩

/-- **The rule for types takes what the search passes.** -/
theorem typePhrase_foresees (hself : Foresees m (self .type)) : Foresees (m + 1) (typePhrase self) := by
  intro xs ys hxs h hranked
  rcases behindType_cases h with ⟨rest, mid, rfl, hname, rfl⟩ | ⟨k, rest, rfl, hk, rfl⟩
  · refine Passes.either_pos ?_ fun ts hts => by simp [ahead_of_kinds hts]
    rw [List.length_cons] at hxs
    exact node_passes ((bump_passes (by decide) rest).cons
      ((typeNameTail_passes hself (by omega) hname).cons (typeSuffix_passes hranked).single))
  · have hident : k ≠ .ident := by
      rintro rfl
      cases hk
    have hend : k ≠ .endOfFile := by
      rintro rfl
      cases hk
    refine Passes.either_neg (Passes.either_pos ?_ fun ts hts => ?_) fun ts hts => ?_
    · exact node_passes ((bump_passes hend rest).cons (typeSuffix_passes hranked).single)
    · simp [startsType, current, nth_of_kinds hts, hk]
    · simp [ahead_of_kinds hts, hident]

end Grammar

/-- The rule for types foresees at every depth, for as many kinds. -/
theorem unfold_foresees (n : Nat) : Foresees n (unfold n .type) := by
  induction n with
  | zero => exact fun xs ys hxs => absurd hxs (Nat.not_lt_zero _)
  | succ n ih => exact typePhrase_foresees ih

/-- At every depth that is enough: one that exceeds the kinds ahead, or one at which no bound is
reached. -/
theorem unfold_leaves {n : Nat} {ts : List Token} {ks : List Kind}
    (hn : (kinds ts).length < n ∨ (unfold n .type ts).cut = false)
    (h : pastType true ts = some ks) (hranked : ¬ Ranked ks) : (unfold n .type ts).Leaves ts ks := by
  rcases hn with hn | hcut
  · exact unfold_foresees n _ _ hn h hranked ts rfl
  · have hsame := unfold_settles (Nat.le_add_right n ((kinds ts).length + 1)) .type ts hcut
    rw [← hsame]
    exact unfold_foresees _ _ _ (by omega) h hranked ts rfl

end CodeMend.Parse

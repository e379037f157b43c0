import CodeMend.Proofs.Syntax.Nodes
import CodeMend.Syntax.Parse.Grammar
import Mathlib.Data.List.TakeWhile

/-!
# Orderly steps

The contract of a parsing step, and one lemma per combinator that keeps it.

A step is `Orderly` if it takes a stretch off the front of its tokens and puts exactly that stretch
into the trees it builds, never takes the end of the file, is not cut by a bound, starts no node
with trivia, and, if it has nothing to complain about, leaves no node empty and ends neither a node
nor itself with trivia.

A loop is orderly if each of its turns is and every turn that asks for another takes a token
(`loop_keeps`).  A rule may be entered with `Room`: each token is worth `rulesPerToken` rules,
and at the end of the file no rule goes deep, so the room never runs out (`Room.step`).
-/

namespace CodeMend

namespace Parse

open Tree

/-! ## Stretches of tokens -/

/-- The tokens in a stretch are put into the trees as they are, and none is the end of the file. -/
structure Step.Tiles (s : Step) (ts taken : List Token) : Prop where
  split : ts = taken ++ s.rest
  stored : tokensAll s.built = taken.map Token.stored
  inside : ∀ t ∈ taken, t.kind ≠ .endOfFile

/-- The tokens do not start with trivia. -/
def Ready (ts : List Token) : Prop := ∀ t ∈ ts.head?, t.kind.isTrivia = false

/-- Is the end of the file still to come? -/
def Ended (ts : List Token) : Prop := ∃ t ∈ ts, t.kind = .endOfFile

/-- Room for `rules` more rules to be entered, one inside the other, before the next token is
taken.  At the end of the file nothing is entered, so there is always room. -/
structure Room (bound rules : Nat) (ts : List Token) : Prop where
  ended : Ended ts
  room : atEnd ts = true ∨ rulesPerToken * ts.length + rules ≤ bound

/-- The contract of a step from `ts`, but for how it ends. -/
structure Step.Faithful (s : Step) (ts : List Token) : Prop where
  tiles : ∃ taken, s.Tiles ts taken
  uncut : s.cut = false
  fresh : EveryNodeAmong FreshNode s.built
  full : s.errors = [] → EveryNodeAmong FullNode s.built

/-- The contract of a step from `ts`. -/
structure Step.Orderly (s : Step) (ts : List Token) : Prop extends s.Faithful ts where
  ends : s.errors = [] → EndsSignificant (tokensAll s.built)

/-- Did the step take a token? -/
def Step.Moved (s : Step) (ts : List Token) : Prop := s.rest.length < ts.length

/-- An orderly step that takes a token or complains. -/
structure Step.Committed (s : Step) (ts : List Token) : Prop extends s.Orderly ts where
  moves : s.errors = [] → s.Moved ts

/-- An orderly step that takes a token. -/
structure Step.Advanced (s : Step) (ts : List Token) : Prop extends s.Orderly ts where
  moved : s.Moved ts

/-- A parser that is orderly wherever there is room. -/
def Keeps (bound rules : Nat) (p : Parser) : Prop :=
  ∀ ts, Room bound rules ts → (p ts).Orderly ts

/-- A parser that, wherever there is room, takes a token or complains. -/
def Commits (bound rules : Nat) (p : Parser) : Prop :=
  ∀ ts, Room bound rules ts → (p ts).Committed ts

/-- Taking a token is one way to commit. -/
theorem Step.Advanced.toCommitted {s : Step} {ts : List Token} (h : s.Advanced ts) :
    s.Committed ts := ⟨h.toOrderly, fun _ => h.moved⟩

/-- A parser that commits is orderly. -/
theorem Commits.keeps {bound rules : Nat} {p : Parser} (h : Commits bound rules p) :
    Keeps bound rules p := fun ts hroom => (h ts hroom).toOrderly

/-- Leaves store the tokens they are made of. -/
theorem tokensAll_leaves (ts : List Token) : tokensAll (ts.map leaf) = ts.map Token.stored := by
  induction ts with
  | nil => rfl
  | cons t ts ih => simp [tokensAll, leaf, tokens, Token.stored, ih]

/-- Among leaves there is no node to check. -/
theorem everyNodeAmong_leaves (P : Kind → List Tree → Prop) (ts : List Token) :
    EveryNodeAmong P (ts.map leaf) := by
  induction ts with
  | nil => trivial
  | cons t ts ih => exact ⟨trivial, ih⟩

/-- A step that builds no tokens takes the empty stretch. -/
theorem Step.Tiles.nil {built : List Tree} {errors : List SyntaxError} {cut : Bool}
    (hbuilt : tokensAll built = []) (ts : List Token) :
    Step.Tiles ⟨built, errors, ts, cut⟩ ts [] := ⟨rfl, hbuilt, by simp⟩

/-- The stretches of two steps, one behind the other, make the stretch of both. -/
theorem Step.Tiles.andThen {s : Step} {p : Parser} {ts taken more : List Token}
    (hs : s.Tiles ts taken) (hp : (p s.rest).Tiles s.rest more) :
    (s.andThen p).Tiles ts (taken ++ more) where
  split := by
    rw [hs.split, List.append_assoc]
    exact congrArg _ hp.split
  stored := by
    rw [List.map_append, ← hs.stored, ← hp.stored]
    exact tokensAll_append _ _
  inside := by
    intro t ht
    rcases List.mem_append.1 ht with ht | ht
    · exact hs.inside t ht
    · exact hp.inside t ht

/-! ## Looking ahead -/

/-- Leaving out trivia goes through a list in pieces. -/
theorem significant_append (ts us : List Token) :
    significant (ts ++ us) = significant ts ++ significant us := List.filter_append ..

/-- Nothing is left where all tokens are trivia. -/
theorem significant_eq_nil {ts : List Token} :
    significant ts = [] ↔ ∀ t ∈ ts, t.kind.isTrivia = true := by
  simp [significant]

/-- A first token that is not trivia stays in front. -/
theorem significant_cons_of_ready {t : Token} {ts : List Token} (h : Ready (t :: ts)) :
    significant (t :: ts) = t :: significant ts := by
  simp [significant, h t rfl]

/-- The next kind is that of the first token that is not trivia, or the end of the file. -/
theorem current_eq (ts : List Token) :
    current ts = ((significant ts).head?.map Token.kind).getD .endOfFile := by
  simp [current, nth, kinds, List.head?_eq_getElem?]

/-- To be at the end is to have the end of the file as the next kind. -/
theorem atEnd_iff (ts : List Token) : atEnd ts = true ↔ current ts = .endOfFile := by
  simp [atEnd, ahead]

/-- Where a kind is ahead that is not the end of the file, the end is not reached. -/
theorem not_atEnd_of_ahead {k : Kind} {ts : List Token} (hk : k ≠ .endOfFile)
    (h : ahead k ts = true) : atEnd ts = false := by
  have hcur : current ts = k := by simpa [ahead] using h
  simpa [atEnd, ahead, hcur] using hk

/-- Where another kind than the end of the file is next, the end is not reached. -/
theorem not_atEnd_of_current {k : Kind} {ts : List Token} (hk : k ≠ .endOfFile)
    (h : current ts = k) : atEnd ts = false := by
  simpa [atEnd, ahead, h] using hk

/-- The same if it is one of several kinds. -/
theorem not_atEnd_of_mem {ks : List Kind} {ts : List Token} (hks : Kind.endOfFile ∉ ks)
    (h : current ts ∈ ks) : atEnd ts = false :=
  not_atEnd_of_current (fun heq => hks (heq ▸ h)) rfl

/-- Trivia at the front makes no difference to what is ahead. -/
theorem significant_dropWhile (ts : List Token) :
    significant (ts.dropWhile (·.kind.isTrivia)) = significant ts := by
  have hfront : significant (ts.takeWhile (·.kind.isTrivia)) = [] :=
    significant_eq_nil.2 fun t ht => by simpa using List.mem_takeWhile_imp ht
  calc significant (ts.dropWhile (·.kind.isTrivia))
      = significant (ts.takeWhile (·.kind.isTrivia) ++ ts.dropWhile (·.kind.isTrivia)) := by
        rw [significant_append, hfront, List.nil_append]
    _ = significant ts := by rw [List.takeWhile_append_dropWhile]

/-! ## Room -/

/-- The tokens taken and the tokens left are all the tokens. -/
theorem Step.Tiles.length_eq {s : Step} {ts taken : List Token} (h : s.Tiles ts taken) :
    ts.length = taken.length + s.rest.length := by
  conv => lhs; rw [h.split]
  exact List.length_append

/-- A step leaves no more tokens than it found. -/
theorem Step.Faithful.length_le {s : Step} {ts : List Token} (h : s.Faithful ts) :
    s.rest.length ≤ ts.length := by
  obtain ⟨taken, htaken⟩ := h.tiles
  have := htaken.length_eq
  omega

/-- At the end of the file a step can only take trivia, so the end stays ahead. -/
theorem Step.Tiles.significant_of_atEnd {s : Step} {ts taken : List Token}
    (h : s.Tiles ts taken) (hend : atEnd ts = true) : significant taken = [] := by
  rw [atEnd_iff, current_eq, h.split, significant_append] at hend
  cases hsig : significant taken with
  | nil => rfl
  | cons t more =>
      have hmem : t ∈ taken := (List.mem_filter.1 (show t ∈ significant taken from
        hsig ▸ List.mem_cons_self)).1
      rw [hsig] at hend
      exact absurd hend (h.inside t hmem)

/-- A step does not get past the end of the file. -/
theorem Step.Tiles.atEnd_rest {s : Step} {ts taken : List Token} (h : s.Tiles ts taken)
    (hend : atEnd ts = true) : atEnd s.rest = true := by
  have hnil := h.significant_of_atEnd hend
  rw [atEnd_iff, current_eq] at hend ⊢
  rw [h.split, significant_append, hnil] at hend
  exact hend

/-- The end of the file is still to come behind a step, which never takes it. -/
theorem Step.Tiles.ended {s : Step} {ts taken : List Token} (h : s.Tiles ts taken)
    (hended : Ended ts) : Ended s.rest := by
  obtain ⟨t, ht, hkind⟩ := hended
  rw [h.split] at ht
  rcases List.mem_append.1 ht with ht | ht
  · exact absurd hkind (h.inside t ht)
  · exact ⟨t, ht, hkind⟩

/-- Room for more rules is room for fewer. -/
theorem Room.mono {bound rules fewer : Nat} {ts : List Token} (h : Room bound rules ts)
    (hle : fewer ≤ rules) : Room bound fewer ts :=
  ⟨h.ended, h.room.imp_right fun hroom => by omega⟩

/-- A step leaves as much room as it found. -/
theorem Room.rest {bound rules : Nat} {ts : List Token} {s : Step} (h : Room bound rules ts)
    (hs : s.Faithful ts) : Room bound rules s.rest := by
  obtain ⟨taken, htaken⟩ := hs.tiles
  refine ⟨htaken.ended h.ended, h.room.imp htaken.atEnd_rest fun hroom => ?_⟩
  have := Nat.mul_le_mul_left rulesPerToken hs.length_le
  omega

/-- **Room is regained with every token.**  Behind a step that takes a token, unless the file is at
its end, any rule may be entered again. -/
theorem Room.step {bound rules : Nat} {ts : List Token} {s : Step} (h : Room bound rules ts)
    (hs : s.Faithful ts) (hmoved : atEnd ts = false → s.Moved ts) :
    Room bound rulesPerToken s.rest := by
  obtain ⟨taken, htaken⟩ := hs.tiles
  refine ⟨htaken.ended h.ended, ?_⟩
  cases hend : atEnd ts with
  | true => exact Or.inl (htaken.atEnd_rest hend)
  | false =>
      have hroom := h.room.resolve_left (by simp [hend])
      have hlt : s.rest.length + 1 ≤ ts.length := hmoved hend
      have hmul := Nat.mul_le_mul_left rulesPerToken hlt
      rw [Nat.mul_succ] at hmul
      exact Or.inr (by omega)

/-- A parser that is orderly in less room is so in more. -/
theorem Keeps.mono {bound rules more : Nat} {p : Parser} (h : Keeps bound rules p)
    (hle : rules ≤ more) : Keeps bound more p := fun ts hroom => h ts (hroom.mono hle)

/-- A parser that commits in less room does so in more. -/
theorem Commits.mono {bound rules more : Nat} {p : Parser} (h : Commits bound rules p)
    (hle : rules ≤ more) : Commits bound more p := fun ts hroom => h ts (hroom.mono hle)

/-! ## Sequences and choices -/

/-- Two steps complain about nothing exactly if neither does. -/
theorem Step.andThen_errors {s : Step} {p : Parser} :
    (s.andThen p).errors = [] ↔ s.errors = [] ∧ (p s.rest).errors = [] := List.append_eq_nil_iff

/-- Doing nothing behind a step changes nothing. -/
theorem Step.andThen_done (s : Step) : s.andThen done = s := by
  cases s
  simp [Step.andThen, done]

/-- Two steps in order. -/
theorem all_pair (p q : Parser) : all [p, q] = fun ts => (p ts).andThen q := by
  funext ts
  have hq : all [q] = q := funext fun us => Step.andThen_done (q us)
  exact congrArg (p ts).andThen hq

/-- Faithful steps in order are faithful, however the first one ends. -/
theorem Step.Faithful.andThen {s : Step} {p : Parser} {ts : List Token} (hs : s.Faithful ts)
    (hp : (p s.rest).Faithful s.rest) : (s.andThen p).Faithful ts where
  tiles := by
    obtain ⟨taken, htaken⟩ := hs.tiles
    obtain ⟨more, hmore⟩ := hp.tiles
    exact ⟨taken ++ more, htaken.andThen hmore⟩
  uncut := by
    show (s.cut || (p s.rest).cut) = false
    rw [hs.uncut, hp.uncut]
    rfl
  fresh := everyNodeAmong_append.2 ⟨hs.fresh, hp.fresh⟩
  full := by
    intro herr
    obtain ⟨hserr, hperr⟩ := Step.andThen_errors.1 herr
    exact everyNodeAmong_append.2 ⟨hs.full hserr, hp.full hperr⟩

/-- Orderly steps in order are orderly: what the second builds decides the end, and if that is
nothing, the first does. -/
theorem Step.Orderly.andThen {s : Step} {p : Parser} {ts : List Token} (hs : s.Orderly ts)
    (hp : (p s.rest).Orderly s.rest) : (s.andThen p).Orderly ts where
  toFaithful := hs.toFaithful.andThen hp.toFaithful
  ends := by
    intro herr
    obtain ⟨hserr, hperr⟩ := Step.andThen_errors.1 herr
    show EndsSignificant (tokensAll (s.built ++ (p s.rest).built))
    rw [tokensAll_append]
    exact (hs.ends hserr).append (hp.ends hperr)

/-- What starts with a step that commits is committed. -/
theorem Step.Committed.andThen {s : Step} {p : Parser} {ts : List Token} (hs : s.Committed ts)
    (hp : (p s.rest).Orderly s.rest) : (s.andThen p).Committed ts where
  toOrderly := hs.toOrderly.andThen hp
  moves := fun herr => Nat.lt_of_le_of_lt hp.length_le (hs.moves (Step.andThen_errors.1 herr).1)

/-- What starts with a step that takes a token takes one. -/
theorem Step.Advanced.andThen {s : Step} {p : Parser} {ts : List Token} (hs : s.Advanced ts)
    (hp : (p s.rest).Orderly s.rest) : (s.andThen p).Advanced ts where
  toOrderly := hs.toOrderly.andThen hp
  moved := Nat.lt_of_le_of_lt hp.length_le hs.moved

/-- The second of two steps may be the one that commits. -/
theorem Step.Orderly.andCommit {s : Step} {p : Parser} {ts : List Token} (hs : s.Orderly ts)
    (hp : (p s.rest).Committed s.rest) : (s.andThen p).Committed ts where
  toOrderly := hs.andThen hp.toOrderly
  moves := fun herr => Nat.lt_of_lt_of_le (hp.moves (Step.andThen_errors.1 herr).2) hs.length_le

/-- The second of two steps may be the one that takes a token. -/
theorem Step.Orderly.andAdvance {s : Step} {p : Parser} {ts : List Token} (hs : s.Orderly ts)
    (hp : (p s.rest).Advanced s.rest) : (s.andThen p).Advanced ts where
  toOrderly := hs.andThen hp.toOrderly
  moved := Nat.lt_of_lt_of_le hp.moved hs.length_le

/-- A step that builds nothing and leaves everything. -/
theorem orderly_of_idle {ts : List Token} (errors : List SyntaxError) :
    Step.Orderly ⟨[], errors, ts, false⟩ ts where
  tiles := ⟨[], .nil rfl ts⟩
  uncut := rfl
  fresh := trivial
  full := fun _ => trivial
  ends := fun _ _ hx => by simp [tokensAll] at hx

/-- Doing nothing is orderly. -/
theorem done_keeps (bound rules : Nat) : Keeps bound rules done :=
  fun _ _ => orderly_of_idle []

/-- A complaint is a commitment: it takes nothing, but it says so. -/
theorem complain_committed (message : String) (ts : List Token) :
    (complain message ts).Committed ts :=
  ⟨orderly_of_idle _, fun herr => by simp [complain] at herr⟩

/-- The same for the parser that only complains. -/
theorem complain_commits (bound rules : Nat) (message : String) :
    Commits bound rules (complain message) := fun ts _ => complain_committed message ts

/-- No parsers at all keep order. -/
theorem Keeps.nil {bound rules : Nat} : Keeps bound rules (all []) := done_keeps bound rules

/-- Parsers one after another keep order if each does; there is as much room behind the first as
before it. -/
theorem Keeps.cons {bound rules : Nat} {p : Parser} {ps : List Parser} (hp : Keeps bound rules p)
    (hps : Keeps bound rules (all ps)) : Keeps bound rules (all (p :: ps)) := by
  intro ts hroom
  have hs := hp ts hroom
  exact hs.andThen (hps _ (hroom.rest hs.toFaithful))

/-- A sequence commits with its first step … -/
theorem Commits.cons {bound rules : Nat} {p : Parser} {ps : List Parser}
    (hp : Commits bound rules p) (hps : Keeps bound rules (all ps)) :
    Commits bound rules (all (p :: ps)) := by
  intro ts hroom
  have hs := hp ts hroom
  exact hs.andThen (hps _ (hroom.rest hs.toFaithful))

/-- … or with a later one. -/
theorem Commits.later {bound rules : Nat} {p : Parser} {ps : List Parser}
    (hp : Keeps bound rules p) (hps : Commits bound rules (all ps)) :
    Commits bound rules (all (p :: ps)) := by
  intro ts hroom
  have hs := hp ts hroom
  exact hs.andCommit (hps _ (hroom.rest hs.toFaithful))

/-- A choice keeps order if its first branch does where it is taken and the other one does
anywhere. -/
theorem either_keeps {bound rules : Nat} {look : Look} {p q : Parser}
    (hp : ∀ ts, look ts = true → Room bound rules ts → (p ts).Orderly ts)
    (hq : Keeps bound rules q) : Keeps bound rules (either look p q) := by
  intro ts hroom
  unfold either
  split
  · next hlook => exact hp ts hlook hroom
  · exact hq ts hroom

/-- A choice commits if its first branch does where it is taken and the other one does anywhere.
-/
theorem either_commits {bound rules : Nat} {look : Look} {p q : Parser}
    (hp : ∀ ts, look ts = true → Room bound rules ts → (p ts).Committed ts)
    (hq : Commits bound rules q) : Commits bound rules (either look p q) := by
  intro ts hroom
  unfold either
  split
  · next hlook => exact hp ts hlook hroom
  · exact hq ts hroom

/-- An optional part keeps order if it does where it is taken. -/
theorem given_keeps {bound rules : Nat} {look : Look} {p : Parser}
    (hp : ∀ ts, look ts = true → Room bound rules ts → (p ts).Orderly ts) :
    Keeps bound rules (given look p) := either_keeps hp (done_keeps bound rules)

/-- A parser that keeps order anywhere may be made optional. -/
theorem Keeps.given {bound rules : Nat} {p : Parser} (hp : Keeps bound rules p) (look : Look) :
    Keeps bound rules (given look p) := given_keeps fun ts _ hroom => hp ts hroom

/-! ## Taking tokens -/

/-- Putting trivia in place is faithful, though it may end with trivia. -/
theorem flush_faithful (ts : List Token) : (flush ts).Faithful ts where
  tiles := by
    refine ⟨ts.takeWhile (·.kind.isTrivia), ?_, tokensAll_leaves _, ?_⟩
    · exact List.takeWhile_append_dropWhile.symm
    · intro t ht hkind
      have htrivia : t.kind.isTrivia = true := by simpa using List.mem_takeWhile_imp ht
      rw [hkind] at htrivia
      exact absurd htrivia (by decide)
  uncut := rfl
  fresh := everyNodeAmong_leaves _ _
  full := fun _ => everyNodeAmong_leaves _ _

/-- Behind the trivia that were put in place there are none. -/
theorem flush_ready (ts : List Token) : Ready (flush ts).rest := by
  intro t ht
  have hhead : (ts.dropWhile (·.kind.isTrivia)).head? = some t := ht
  have h := List.head?_dropWhile_not (·.kind.isTrivia) ts
  rw [hhead] at h
  simpa using h

/-- Putting trivia in place leaves the kinds that are ahead. -/
theorem kinds_flush (ts : List Token) : kinds (flush ts).rest = kinds ts := by
  simp only [kinds, flush, significant_dropWhile]

/-- Putting trivia in place leaves the next kind. -/
theorem current_flush (ts : List Token) : current (flush ts).rest = current ts := by
  simp only [current, nth, kinds_flush]

/-- Putting trivia in place does not change whether the end is reached. -/
theorem flush_atEnd (ts : List Token) : atEnd (flush ts).rest = atEnd ts := by
  simp only [atEnd, ahead, current_flush]

/-- At the end of the file, with no trivia before it, no step takes a token. -/
theorem Step.Faithful.not_moved {s : Step} {ts : List Token} (hs : s.Faithful ts)
    (hready : Ready ts) (hend : atEnd ts = true) : ¬ s.Moved ts := by
  intro hmoved
  obtain ⟨taken, htaken⟩ := hs.tiles
  have hlen := htaken.length_eq
  have hnil := htaken.significant_of_atEnd hend
  cases taken with
  | nil =>
      have : s.rest.length < ts.length := hmoved
      simp only [List.length_nil] at hlen
      omega
  | cons t more =>
      have htrivia := significant_eq_nil.1 hnil t List.mem_cons_self
      have hsplit := htaken.split
      rw [hready t (by rw [hsplit]; rfl)] at htrivia
      exact absurd htrivia (by decide)

/-- A step that takes a token builds something with tokens. -/
theorem Step.Faithful.tokens_ne_nil {s : Step} {ts : List Token} (hs : s.Faithful ts)
    (hmoved : s.Moved ts) : tokensAll s.built ≠ [] := by
  obtain ⟨taken, htaken⟩ := hs.tiles
  intro hnil
  have hempty : taken = [] := by simpa [htaken.stored] using hnil
  have hlen := htaken.length_eq
  have : s.rest.length < ts.length := hmoved
  rw [hempty, List.length_nil] at hlen
  omega

/-- A step that starts behind the trivia does not start with any. -/
theorem Step.Faithful.startsSignificant {s : Step} {ts : List Token} (hs : s.Faithful ts)
    (hready : Ready ts) : StartsSignificant (tokensAll s.built) := by
  obtain ⟨taken, htaken⟩ := hs.tiles
  rw [htaken.stored]
  cases taken with
  | nil => simp [StartsSignificant]
  | cons t more =>
      intro x hx
      obtain rfl : t.stored = x := by simpa using hx
      exact hready t (by rw [htaken.split]; rfl)

/-- Trivia, and behind it a step that takes a token or complains. -/
theorem flush_committed {q : Parser} {ts : List Token}
    (hq : (q (flush ts).rest).Committed (flush ts).rest) : (all [flush, q] ts).Committed ts := by
  rw [all_pair]
  refine ⟨⟨(flush_faithful ts).andThen hq.toFaithful, ?_⟩, ?_⟩
  · intro herr
    have hqerr := (Step.andThen_errors.1 herr).2
    show EndsSignificant (tokensAll ((flush ts).built ++ (q (flush ts).rest).built))
    rw [tokensAll_append]
    exact (hq.ends hqerr).append_right (hq.tokens_ne_nil (hq.moves hqerr))
  · intro herr
    have hmoved := hq.moves (Step.andThen_errors.1 herr).2
    exact Nat.lt_of_lt_of_le hmoved (flush_faithful ts).length_le

/-- Trivia, and behind it a step that takes a token. -/
theorem flush_advanced {q : Parser} {ts : List Token}
    (hq : (q (flush ts).rest).Advanced (flush ts).rest) : (all [flush, q] ts).Advanced ts := by
  refine ⟨(flush_committed hq.toCommitted).toOrderly, ?_⟩
  rw [all_pair]
  exact Nat.lt_of_lt_of_le hq.moved (flush_faithful ts).length_le

/-- A parser that starts with the trivia and commits itself behind it. -/
theorem flush_commits {bound rules : Nat} {q : Parser}
    (hq : ∀ ts, Ready ts → Room bound rules ts → (q ts).Committed ts) :
    Commits bound rules (all [flush, q]) := by
  intro ts hroom
  exact flush_committed (hq _ (flush_ready ts) (hroom.rest (flush_faithful ts)))

/-- The first token, unless it is the end of the file. -/
theorem take_eq {ts : List Token} (hready : Ready ts) (hend : atEnd ts = false) :
    ∃ t rest, ts = t :: rest ∧ t.kind ≠ .endOfFile ∧ take ts = ⟨[leaf t], [], rest, false⟩ := by
  cases ts with
  | nil => exact absurd hend (by decide)
  | cons t rest =>
      have hkind : t.kind ≠ .endOfFile := by
        simpa [atEnd, ahead, current_eq, significant_cons_of_ready hready] using hend
      exact ⟨t, rest, rfl, hkind, by simp [take, hkind]⟩

/-- Away from the end, taking the first token of a list that does not start with trivia takes a
token. -/
theorem take_advanced {ts : List Token} (hready : Ready ts) (hend : atEnd ts = false) :
    (take ts).Advanced ts := by
  obtain ⟨t, rest, rfl, hkind, heq⟩ := take_eq hready hend
  rw [heq]
  exact {
    tiles := ⟨[t], rfl, tokensAll_leaves [t], by simpa using hkind⟩
    uncut := rfl
    fresh := everyNodeAmong_leaves _ [t]
    full := fun _ => everyNodeAmong_leaves _ [t]
    ends := fun _ x hx => by
      obtain rfl : t.stored = x := by simpa [tokensAll, leaf, tokens, Token.stored] using hx
      exact hready t rfl
    moved := Nat.lt_succ_self _ }

/-- Away from the end, the next token is taken with the trivia before it. -/
theorem bump_advanced {ts : List Token} (hend : atEnd ts = false) : (bump ts).Advanced ts :=
  flush_advanced (take_advanced (flush_ready ts) (by rw [flush_atEnd, hend]))

/-- At the end of the file `bump` only puts the trivia in place. -/
theorem bump_eq_flush {ts : List Token} (hend : atEnd ts = true) :
    bump ts = flush ts := by
  have hrest : atEnd (flush ts).rest = true := by rw [flush_atEnd, hend]
  have htake : take (flush ts).rest = done (flush ts).rest := by
    cases hts : (flush ts).rest with
    | nil => rfl
    | cons t rest =>
        have hready : Ready (t :: rest) := hts ▸ flush_ready ts
        rw [hts] at hrest
        have hkind : t.kind = .endOfFile := by
          simpa [atEnd, ahead, current_eq, significant_cons_of_ready hready] using hrest
        simp [take, hkind]
  calc bump ts
      = (flush ts).andThen take := congrFun (all_pair flush take) ts
    _ = (flush ts).andThen done := by unfold Step.andThen; rw [htake]
    _ = flush ts := Step.andThen_done _

/-- Taking the next token is faithful everywhere, at the end of the file too. -/
theorem bump_faithful (ts : List Token) : (bump ts).Faithful ts := by
  cases hend : atEnd ts with
  | false => exact (bump_advanced hend).toFaithful
  | true =>
      rw [bump_eq_flush hend]
      exact flush_faithful ts

/-- Behind a token, any rule may be entered again. -/
theorem Room.bump {bound rules : Nat} {ts : List Token} (h : Room bound rules ts) :
    Room bound rulesPerToken (bump ts).rest :=
  h.step (bump_faithful ts) fun hend => (bump_advanced hend).moved

/-- A step that takes a token, and what follows it. -/
theorem Step.Advanced.cons {bound rules : Nat} {p : Parser} {ps : List Parser} {ts : List Token}
    (hp : (p ts).Advanced ts) (hroom : Room bound rules ts)
    (hps : Keeps bound rulesPerToken (all ps)) : (all (p :: ps) ts).Advanced ts :=
  hp.andThen (hps _ (hroom.step hp.toFaithful fun _ => hp.moved))

/-- A token and what follows it. -/
theorem all_bump_advanced {bound rules : Nat} {ps : List Parser} {ts : List Token}
    (hend : atEnd ts = false) (hroom : Room bound rules ts)
    (hps : Keeps bound rulesPerToken (all ps)) : (all (bump :: ps) ts).Advanced ts :=
  (bump_advanced hend).cons hroom hps

/-- At the end of the file, where no token is taken, what follows has to complain. -/
theorem Commits.bump {bound rules : Nat} {ps : List Parser}
    (hps : Commits bound rulesPerToken (all ps)) : Commits bound rules (all (bump :: ps)) := by
  intro ts hroom
  cases hend : atEnd ts with
  | false => exact (all_bump_advanced hend hroom hps.keeps).toCommitted
  | true =>
      have hall := hps _ hroom.bump
      have hstays := hall.not_moved (by rw [bump_eq_flush hend]; exact flush_ready ts)
        (by rw [bump_eq_flush hend, flush_atEnd, hend])
      have herr : (all (Parse.bump :: ps) ts).errors ≠ [] := fun herr =>
        hstays (hall.moves (Step.andThen_errors.1 herr).2)
      exact ⟨⟨(bump_faithful ts).andThen hall.toFaithful, fun h => absurd h herr⟩,
        fun h => absurd h herr⟩

/-- The kinds ahead behind a token that is taken. -/
theorem kinds_bump {ts : List Token} (hend : atEnd ts = false) :
    kinds (bump ts).rest = (kinds ts).tail := by
  obtain ⟨t, rest, hts, -, htake⟩ := take_eq (flush_ready ts) (by rw [flush_atEnd, hend])
  have hrest : (bump ts).rest = rest := by
    show (all [flush, take] ts).rest = rest
    rw [all_pair]
    show (take (flush ts).rest).rest = rest
    rw [htake]
  have hready : Ready (t :: rest) := hts ▸ flush_ready ts
  rw [hrest, ← kinds_flush ts, hts, kinds, kinds, significant_cons_of_ready hready]
  rfl

/-- What was ahead at a place is one place nearer behind a token that was taken. -/
theorem nth_bump {ts : List Token} (hend : atEnd ts = false) (n : Nat) :
    nth n (bump ts).rest = nth (n + 1) ts := by
  simp [nth, kinds_bump hend]

/-- Two tokens. -/
theorem bump_bump_advanced {ts : List Token} (hend : atEnd ts = false)
    (hnext : nth 1 ts ≠ .endOfFile) : (all [bump, bump] ts).Advanced ts := by
  rw [all_pair]
  refine (bump_advanced hend).andThen (bump_advanced ?_).toOrderly
  exact not_atEnd_of_current hnext (nth_bump hend 0)

/-- A token that may be missing keeps order. -/
theorem eat_keeps {k : Kind} (bound rules : Nat) (hk : k ≠ .endOfFile) :
    Keeps bound rules (eat k) :=
  given_keeps fun _ hlook _ => (bump_advanced (not_atEnd_of_ahead hk hlook)).toOrderly

/-- A token that is expected is taken or complained about. -/
theorem expect_commits {k : Kind} (bound rules : Nat) (hk : k ≠ .endOfFile) :
    Commits bound rules (expect k) :=
  either_commits (fun _ hlook _ => (bump_advanced (not_atEnd_of_ahead hk hlook)).toCommitted)
    (complain_commits bound rules _)

/-! ## Nodes -/

/-- A node over a committed step is committed: if nothing is complained about, the step took a
token, so the node is not empty and starts and ends without trivia. -/
theorem under_committed {k : Kind} {p : Parser} {ts : List Token} (hready : Ready ts)
    (hp : (p ts).Committed ts) : (under k p ts).Committed ts where
  tiles := by
    obtain ⟨taken, htaken⟩ := hp.tiles
    exact ⟨taken, htaken.split, by simpa [under, tokensAll, tokens] using htaken.stored,
      htaken.inside⟩
  uncut := hp.uncut
  fresh := ⟨⟨hp.startsSignificant hready, hp.fresh⟩, trivial⟩
  full := fun herr =>
    ⟨⟨⟨hp.tokens_ne_nil (hp.moves herr), hp.ends herr⟩, hp.full herr⟩, trivial⟩
  ends := fun herr => by simpa [under, tokensAll, tokens] using hp.ends herr
  moves := hp.moves

/-- A node over what commits does so with the trivia before it outside. -/
theorem Commits.node {bound rules : Nat} {ps : List Parser} (hps : Commits bound rules (all ps))
    (k : Kind) : Commits bound rules (node k ps) :=
  flush_commits fun ts hready hroom => under_committed hready (hps ts hroom)

/-- A node whose first step takes a token. -/
theorem node_advanced {k : Kind} {ps : List Parser} {ts : List Token}
    (hps : (all ps (flush ts).rest).Advanced (flush ts).rest) : (node k ps ts).Advanced ts :=
  flush_advanced
    ⟨(under_committed (flush_ready ts) hps.toCommitted).toOrderly, hps.moved⟩

/-- A node that starts with a token. -/
theorem node_bump_advanced {bound rules : Nat} {ps : List Parser} {ts : List Token}
    (hend : atEnd ts = false) (hroom : Room bound rules ts)
    (hps : Keeps bound rulesPerToken (all ps)) (k : Kind) :
    (node k (bump :: ps) ts).Advanced ts :=
  node_advanced (all_bump_advanced (by rw [flush_atEnd, hend])
    (hroom.rest (flush_faithful ts)) hps)

/-! ## Recovery -/

/-- Skipping always complains. -/
theorem skip_errors (message : String) (ts : List Token) : (skip message ts).errors ≠ [] := by
  unfold skip either
  split
  · simp [complain]
  · rw [all_pair]
    intro herr
    simpa [complain] using (Step.andThen_errors.1 herr).1

/-- Away from the end, skipping takes a token. -/
theorem skip_advanced {bound rules : Nat} {ts : List Token} (message : String)
    (hroom : Room bound rules ts) (hend : atEnd ts = false) : (skip message ts).Advanced ts := by
  unfold skip either
  rw [if_neg (by simp [hend]), all_pair]
  exact (complain_committed message ts).toOrderly.andAdvance
    (node_bump_advanced hend hroom .nil .error)

/-- Skipping complains everywhere and keeps order. -/
theorem skip_commits (bound rules : Nat) (message : String) :
    Commits bound rules (skip message) := by
  intro ts hroom
  cases hend : atEnd ts with
  | false => exact (skip_advanced message hroom hend).toCommitted
  | true =>
      unfold skip either
      rw [if_pos hend]
      exact complain_committed message ts

/-- A step that took no token left the list as it was. -/
theorem Step.Faithful.rest_eq_of_stuck {s : Step} {ts : List Token} (hs : s.Faithful ts)
    (hstuck : stuck ts s = true) : s.rest = ts := by
  obtain ⟨taken, htaken⟩ := hs.tiles
  have hlen := htaken.length_eq
  have hstuck : s.rest.length = ts.length := by simpa [stuck] using hstuck
  have hnil : taken = [] := List.eq_nil_of_length_eq_zero (by omega)
  simpa [hnil] using htaken.split.symm

/-- A step that is not stuck took a token. -/
theorem Step.Faithful.moved_of_not_stuck {s : Step} {ts : List Token} (hs : s.Faithful ts)
    (hstuck : stuck ts s = false) : s.Moved ts := by
  have hle := hs.length_le
  have hne : s.rest.length ≠ ts.length := by simpa [stuck] using hstuck
  exact Nat.lt_of_le_of_ne hle hne

/-- A fallback commits if it does so itself: it is entered where the step before it took
nothing. -/
theorem orWhenStuck_commits {bound rules : Nat} {p q : Parser} (hp : Keeps bound rules p)
    (hq : Commits bound rules q) : Commits bound rules (orWhenStuck p q) := by
  intro ts hroom
  have hs := hp ts hroom
  unfold orWhenStuck
  dsimp only
  split
  · exact hs.andCommit (hq _ (hroom.rest hs.toFaithful))
  · next hstuck =>
    exact ⟨hs, fun _ => hs.moved_of_not_stuck (Bool.eq_false_iff.2 hstuck)⟩

/-- A step with recovery takes a token wherever there is one. -/
theorem orWhenStuck_skip_moved {bound rules : Nat} {p : Parser} {ts : List Token}
    (message : String) (hp : (p ts).Faithful ts) (hroom : Room bound rules ts)
    (hend : atEnd ts = false) : (orWhenStuck p (skip message) ts).Moved ts := by
  unfold orWhenStuck
  dsimp only
  split
  · next hstuck =>
    have hrest := hp.rest_eq_of_stuck hstuck
    show (skip message (p ts).rest).rest.length < ts.length
    rw [hrest]
    exact (skip_advanced message hroom hend).moved
  · next hstuck => exact hp.moved_of_not_stuck (Bool.eq_false_iff.2 hstuck)

/-- With skipping as the fallback, a token is taken away from the end. -/
theorem orWhenStuck_skip_advanced {bound rules : Nat} {p : Parser} {ts : List Token}
    (message : String) (hp : Keeps bound rules p) (hroom : Room bound rules ts)
    (hend : atEnd ts = false) : (orWhenStuck p (skip message) ts).Advanced ts where
  toOrderly := (orWhenStuck_commits hp (skip_commits bound rules message)).keeps ts hroom
  moved := orWhenStuck_skip_moved message (hp ts hroom).toFaithful hroom hend

/-! ## Loops -/

/-- What a loop needs of a turn: the step is orderly, and a turn that asks for another takes a
token. -/
structure Turn.Sound (t : Turn) (ts : List Token) : Prop where
  orderly : t.step.Orderly ts
  moved : t.again = true → t.step.Moved ts

/-- A loop is orderly if its turns are and its bound is not below the number of tokens, by
induction on the bound: a turn that asks for another leaves fewer tokens. -/
theorem turns_orderly {bound rules : Nat} {look : Look} {turn : List Token → Turn}
    (hturn : ∀ ts, look ts = true → Room bound rules ts → (turn ts).Sound ts)
    (n : Nat) (ts : List Token) (hn : ts.length ≤ n) (hroom : Room bound rules ts) :
    (turns look turn n ts).Orderly ts := by
  induction n generalizing ts with
  | zero =>
      obtain ⟨t, ht, _⟩ := hroom.ended
      have := List.length_pos_of_mem ht
      omega
  | succ n ih =>
      simp only [turns]
      split
      · next hlook =>
        have hsound := hturn ts hlook hroom
        split
        · next hagain =>
          have hlt : (turn ts).step.rest.length < ts.length := hsound.moved hagain
          exact hsound.orderly.andThen
            (ih _ (by omega) (hroom.rest hsound.orderly.toFaithful))
        · exact hsound.orderly
      · exact orderly_of_idle []

/-- **A loop whose turns take a token is orderly**: its bound is never reached. -/
theorem loop_keeps {bound rules : Nat} {look : Look} {turn : List Token → Turn}
    (hturn : ∀ ts, look ts = true → Room bound rules ts → (turn ts).Sound ts) :
    Keeps bound rules (loop look turn) :=
  fun ts hroom => turns_orderly hturn ts.length ts (Nat.le_refl _) hroom

/-- A loop starts with its first turn. -/
theorem loop_eq {look : Look} {turn : List Token → Turn} {ts : List Token} (hended : Ended ts)
    (hlook : look ts = true) :
    loop look turn ts =
      if (turn ts).again then (turn ts).step.andThen (turns look turn (ts.length - 1))
      else (turn ts).step := by
  obtain ⟨t, ht, _⟩ := hended
  have hpos := List.length_pos_of_mem ht
  obtain ⟨n, hn⟩ : ∃ n, ts.length = n + 1 := ⟨ts.length - 1, by omega⟩
  simp only [loop, hn, turns, hlook, if_true, Nat.add_sub_cancel]

/-- A loop takes a token if its first turn does. -/
theorem loop_moved {bound rules : Nat} {look : Look} {turn : List Token → Turn}
    (hturn : ∀ ts, look ts = true → Room bound rules ts → (turn ts).Sound ts)
    {ts : List Token} (hroom : Room bound rules ts) (hlook : look ts = true)
    (hmoved : (turn ts).step.Moved ts) : (loop look turn ts).Moved ts := by
  have hsound := hturn ts hlook hroom
  rw [loop_eq hroom.ended hlook]
  split
  · have hlt : (turn ts).step.rest.length < ts.length := hmoved
    have hrest := turns_orderly hturn (ts.length - 1) (turn ts).step.rest (by omega)
      (hroom.rest hsound.orderly.toFaithful)
    exact Nat.lt_of_le_of_lt hrest.length_le hmoved
  · exact hmoved

/-- A loop that makes a turn whenever it is entered commits itself if the turn does. -/
theorem loop_commits {bound rules : Nat} {turn : List Token → Turn}
    (hturn : ∀ ts, Room bound rules ts → (turn ts).Sound ts)
    (hmoves : ∀ ts, Room bound rules ts → (turn ts).step.errors = [] → (turn ts).step.Moved ts) :
    Commits bound rules (loop (fun _ => true) turn) := by
  intro ts hroom
  refine ⟨loop_keeps (fun us _ => hturn us) ts hroom, fun herr => ?_⟩
  refine loop_moved (fun us _ => hturn us) hroom rfl (hmoves ts hroom ?_)
  rw [loop_eq hroom.ended rfl] at herr
  split at herr
  · exact (Step.andThen_errors.1 herr).1
  · exact herr

/-- Repeating a step that takes a token where the test holds keeps order. -/
theorem repeatWhile_keeps {bound rules : Nat} {look : Look} {p : Parser}
    (hp : ∀ ts, look ts = true → Room bound rules ts → (p ts).Advanced ts) :
    Keeps bound rules (repeatWhile look p) :=
  loop_keeps fun ts hlook hroom => ⟨(hp ts hlook hroom).toOrderly, fun _ => (hp ts hlook hroom).moved⟩

/-- Where the test holds, repeating takes a token. -/
theorem repeatWhile_advanced {bound rules : Nat} {look : Look} {p : Parser} {ts : List Token}
    (hp : ∀ ts, look ts = true → Room bound rules ts → (p ts).Advanced ts)
    (hroom : Room bound rules ts) (hlook : look ts = true) :
    (repeatWhile look p ts).Advanced ts where
  toOrderly := repeatWhile_keeps hp ts hroom
  moved := loop_moved
    (fun us hus hr => ⟨(hp us hus hr).toOrderly, fun _ => (hp us hus hr).moved⟩) hroom hlook
    (hp ts hlook hroom).moved

/-- The turn of a list with commas, given what happens where a comma is missing. -/
theorem commaTurn_sound {item : Parser} {missing : Bool → List Token → Turn} {ts : List Token}
    (hitem : (item ts).Orderly ts)
    (hmissing : (missing (stuck ts (item ts)) (item ts).rest).step.Orderly (item ts).rest)
    (hmoved : (missing (stuck ts (item ts)) (item ts).rest).again = true →
      stuck ts (item ts) = true →
        (missing (stuck ts (item ts)) (item ts).rest).step.Moved (item ts).rest) :
    (commaTurn item missing ts).Sound ts := by
  unfold commaTurn
  dsimp only
  split
  · next hcomma =>
    have hadvanced := hitem.andAdvance (bump_advanced (not_atEnd_of_ahead (by decide) hcomma))
    exact ⟨hadvanced.toOrderly, fun _ => hadvanced.moved⟩
  · refine ⟨hitem.andThen (p := fun _ => _) hmissing, fun hagain => ?_⟩
    by_cases hstuck : stuck ts (item ts) = true
    · exact Nat.lt_of_lt_of_le (hmoved hagain hstuck) hitem.length_le
    · exact Nat.lt_of_le_of_lt hmissing.length_le
        (hitem.moved_of_not_stuck (Bool.eq_false_iff.2 hstuck))

/-- A turn of a list that ends where a comma is missing is sound. -/
theorem commaTurn_stop_sound {item : Parser} {ts : List Token} (hitem : (item ts).Orderly ts) :
    (commaTurn item (fun _ => stop done) ts).Sound ts :=
  commaTurn_sound hitem (orderly_of_idle []) (fun hagain => by simp [stop] at hagain)

/-- Such a turn takes a token if its item commits and does not complain. -/
theorem commaTurn_moves {item : Parser} {ts : List Token} (hitem : (item ts).Committed ts)
    (herr : (commaTurn item (fun _ => stop done) ts).step.errors = []) :
    (commaTurn item (fun _ => stop done) ts).step.Moved ts := by
  have hsound := commaTurn_stop_sound hitem.toOrderly
  cases hcomma : ahead .comma (item ts).rest with
  | true => exact hsound.moved (by simp [commaTurn, hcomma])
  | false =>
      simp only [commaTurn, hcomma, Bool.false_eq_true, if_false] at herr ⊢
      exact hitem.moves (Step.andThen_errors.1 herr).1

/-- Items separated by commas keep order. -/
theorem separated_keeps {bound rules : Nat} {item : Parser} (hitem : Keeps bound rules item) :
    Keeps bound rules (separated item) :=
  loop_keeps fun ts _ hroom => commaTurn_stop_sound (hitem ts hroom)

/-- Items separated by commas commit if each does, since the list starts with one. -/
theorem separated_commits {bound rules : Nat} {item : Parser} (hitem : Commits bound rules item) :
    Commits bound rules (separated item) :=
  loop_commits (fun ts hroom => commaTurn_stop_sound (hitem ts hroom).toOrderly)
    fun ts hroom => commaTurn_moves (hitem ts hroom)

/-- What a loop needs of a turn that may put trivia in place and take nothing more: it takes
something, and where it ends with trivia, the next turn complains. -/
structure DriftsOnce (look : Look) (p : Parser) (ts : List Token) : Prop where
  faithful : (p ts).Faithful ts
  moved : (p ts).Moved ts
  ends : (p ts).errors = [] → EndsSignificant (tokensAll (p ts).built) ∨
    look (p ts).rest = true ∧ (p (p ts).rest).errors ≠ []

/-- A loop of such turns is orderly: without complaints it does not end with trivia. -/
theorem turns_orderly_of_drift {bound rules : Nat} {look : Look} {p : Parser}
    (hp : ∀ ts, look ts = true → Room bound rules ts → DriftsOnce look p ts)
    (n : Nat) (ts : List Token) (hn : ts.length ≤ n) (hroom : Room bound rules ts) :
    (turns look (fun us => ⟨p us, true⟩) n ts).Orderly ts ∧
      (look ts = true → (p ts).errors ≠ [] →
        (turns look (fun us => ⟨p us, true⟩) n ts).errors ≠ []) := by
  induction n generalizing ts with
  | zero =>
      obtain ⟨t, ht, _⟩ := hroom.ended
      have := List.length_pos_of_mem ht
      omega
  | succ n ih =>
      simp only [turns, if_true]
      split
      · next hlook =>
        have hturn := hp ts hlook hroom
        have hlt : (p ts).rest.length < ts.length := hturn.moved
        obtain ⟨hrest, hcomplains⟩ := ih (p ts).rest (by omega) (hroom.rest hturn.faithful)
        refine ⟨⟨hturn.faithful.andThen hrest.toFaithful, fun herr => ?_⟩, fun _ hperr herr => ?_⟩
        · obtain ⟨hperr, hrestErr⟩ := Step.andThen_errors.1 herr
          -- a turn that drifted makes the rest of the loop complain
          have hsignificant := (hturn.ends hperr).resolve_right fun hdrift =>
            hcomplains hdrift.1 hdrift.2 hrestErr
          show EndsSignificant (tokensAll ((p ts).built ++ _))
          rw [tokensAll_append]
          exact hsignificant.append (hrest.ends hrestErr)
        · exact hperr (Step.andThen_errors.1 herr).1
      · next hlook => exact ⟨orderly_of_idle [], fun h => absurd h hlook⟩

/-- What a loop does not go on with is not ahead behind it. -/
theorem turns_rest {bound rules : Nat} {look : Look} {p : Parser}
    (hp : ∀ ts, look ts = true → Room bound rules ts → DriftsOnce look p ts)
    (n : Nat) (ts : List Token) (hn : ts.length ≤ n) (hroom : Room bound rules ts) :
    look (turns look (fun us => ⟨p us, true⟩) n ts).rest = false := by
  induction n generalizing ts with
  | zero =>
      obtain ⟨t, ht, _⟩ := hroom.ended
      have := List.length_pos_of_mem ht
      omega
  | succ n ih =>
      simp only [turns, if_true]
      split
      · next hlook =>
        have hturn := hp ts hlook hroom
        have hlt : (p ts).rest.length < ts.length := hturn.moved
        exact ih (p ts).rest (by omega) (hroom.rest hturn.faithful)
      · next hlook => exact Bool.eq_false_iff.2 hlook

/-! ## Nodes around what is built already -/

/-- What is built so far goes on with a step and becomes a node of its own. -/
theorem Step.Orderly.enclose {s t : Step} {ts : List Token} (hs : s.Orderly ts)
    (ht : t.Committed s.rest) (hready : Ready ts) (k : Kind) :
    Step.Committed ⟨[.node k (s.built ++ t.built)], s.errors ++ t.errors, t.rest, s.cut || t.cut⟩
      ts :=
  under_committed (p := fun _ => s.andThen fun _ => t) hready (hs.andCommit ht)

/-- A step that may be put into a node with what follows it commits. The operator that the test
sees is taken, so the node is not empty. -/
theorem extendIf_committed {bound rules : Nat} {p : Parser} {look : Look} {k : Kind}
    {ps : List Parser} {ts : List Token} (hready : Ready ts) (hroom : Room bound rules ts)
    (hp : (p ts).Committed ts)
    (hps : ∀ us, look us = true → Room bound rules us → (all ps us).Advanced us) :
    (extendIf p look k ps ts).Committed ts := by
  unfold extendIf
  dsimp only
  split
  · next hlook =>
    have hall := hps (p ts).rest hlook (hroom.rest hp.toFaithful)
    exact hp.toOrderly.enclose hall.toCommitted hready k
  · exact hp

/-- What is asked of the nodes that wrap an operand: they go on with an orderly step that takes a
token. -/
def WrapsSoundly (bound rules : Nat) (pick : List Token → Option (Kind × List Parser)) : Prop :=
  ∀ ts k ps, pick ts = some (k, ps) → Room bound rules ts → (all ps ts).Advanced ts

/-- Wrapping keeps order: `s` is what has been built from `ts` so far. -/
theorem wraps_committed {bound rules : Nat} {pick : List Token → Option (Kind × List Parser)}
    (hpick : WrapsSoundly bound rules pick) {ts : List Token} (hready : Ready ts)
    (hroom : Room bound rules ts) (n : Nat) (s : Step) (hn : s.rest.length ≤ n)
    (hs : s.Committed ts) :
    Step.Committed ⟨(wraps pick n s.built s.rest).built,
      s.errors ++ (wraps pick n s.built s.rest).errors, (wraps pick n s.built s.rest).rest,
      s.cut || (wraps pick n s.built s.rest).cut⟩ ts := by
  have hrest := hroom.rest hs.toFaithful
  induction n generalizing s with
  | zero =>
      obtain ⟨t, ht, _⟩ := hrest.ended
      have := List.length_pos_of_mem ht
      omega
  | succ n ih =>
      cases hp : pick s.rest with
      | none =>
          have hw : wraps pick (n + 1) s.built s.rest = ⟨s.built, [], s.rest, false⟩ := by
            simp only [wraps, hp]
            rfl
          rw [hw]
          simpa using hs
      | some kp =>
          obtain ⟨k, ps⟩ := kp
          have hall := hpick s.rest k ps hp hrest
          have henclosed := hs.toOrderly.enclose hall.toCommitted hready k
          have hlt : (all ps s.rest).rest.length < s.rest.length := hall.moved
          have hih := ih _ (by show (all ps s.rest).rest.length ≤ n; omega) henclosed
            (hroom.rest henclosed.toFaithful)
          simp only [wraps, hp]
          simpa [List.append_assoc, Bool.or_assoc] using hih

/-- An operand and all that wraps it commit if the operand does. -/
theorem wrapped_committed {bound rules : Nat} {operand : Parser}
    {pick : List Token → Option (Kind × List Parser)} {ts : List Token}
    (hpick : WrapsSoundly bound rules pick) (hready : Ready ts) (hroom : Room bound rules ts)
    (hoperand : (operand ts).Committed ts) : (wrapped operand pick ts).Committed ts :=
  wraps_committed hpick hready hroom _ (operand ts) (Nat.le_refl _) hoperand

end Parse

end CodeMend

import CodeMend.Proofs.Parser.Depth
import CodeMend.Proofs.Syntax.Bare

/-!
# Reading known tokens

`Reads after p xs trees` says what a parser makes of the tokens `xs`: it takes just these, builds
`trees` and has nothing to complain about, whenever what stands behind them is as `after` asks.
Nothing is said of a parser that is cut; so depth and the bounds of loops play no part, and what is
read at one depth is read at every depth.

The lemmas follow the combinators.  What is asked of the tokens behind a step is a matter of the step
after it, which starts with known tokens itself.
-/

namespace CodeMend.Parse

open Tree

/-! ## Tokens at the front -/

/-- The tokens `xs` stand at the front of `ts`, and `rest` behind them. -/
def Starts (xs : Stored) (ts rest : List Token) : Prop :=
  ∃ us, us.map Token.stored = xs ∧ ts = us ++ rest

/-- Where nothing stands at the front, everything is behind it. -/
theorem starts_nil {ts rest : List Token} (h : Starts [] ts rest) : ts = rest := by
  obtain ⟨us, hus, rfl⟩ := h
  rw [List.map_eq_nil_iff.1 hus]
  rfl

/-- The first of the tokens at the front, and the others. -/
theorem starts_cons {k : Kind} {s : String} {xs : Stored} {ts rest : List Token}
    (h : Starts ((k, s) :: xs) ts rest) :
    ∃ t us, ts = t :: us ∧ t.kind = k ∧ leaf t = .token k s ∧ Starts xs us rest := by
  obtain ⟨vs, hvs, rfl⟩ := h
  obtain ⟨t, us, rfl, ht, hus⟩ := List.map_eq_cons_iff.1 hvs
  obtain ⟨hkind, htext⟩ := Prod.mk.inj ht
  exact ⟨t, us ++ rest, rfl, hkind, by rw [leaf, hkind, htext], us, hus, rfl⟩

/-- Tokens at the front, and others behind them. -/
theorem starts_append {xs ys : Stored} {ts rest : List Token} (h : Starts (xs ++ ys) ts rest) :
    ∃ mid, Starts xs ts mid ∧ Starts ys mid rest := by
  obtain ⟨us, hus, rfl⟩ := h
  obtain ⟨vs, ws, rfl, hvs, hws⟩ := List.map_eq_append_iff.1 hus
  exact ⟨ws ++ rest, ⟨vs, hvs, by rw [List.append_assoc]⟩, ws, hws, rfl⟩

/-- The kinds of the significant ones among stored tokens. -/
def kindsOf (xs : Stored) : List Kind := (Tree.significant xs).map Prod.fst

/-- No tokens have no kinds. -/
@[simp] theorem kindsOf_nil : kindsOf [] = [] := rfl

/-- The kinds of two rows, one behind the other. -/
@[simp] theorem kindsOf_append (xs ys : Stored) : kindsOf (xs ++ ys) = kindsOf xs ++ kindsOf ys := by
  simp [kindsOf]

/-- A significant token in front shows its kind. -/
theorem kindsOf_cons {k : Kind} (hk : k.isTrivia = false) (s : String) (xs : Stored) :
    kindsOf ((k, s) :: xs) = k :: kindsOf xs := by
  simp [kindsOf, Tree.significant, hk]

/-- The kinds ahead are those of the tokens at the front and then those of the rest. -/
theorem Starts.kinds {xs : Stored} {ts rest : List Token} (h : Starts xs ts rest) :
    kinds ts = kindsOf xs ++ kinds rest := by
  obtain ⟨us, rfl, rfl⟩ := h
  induction us with
  | nil => rfl
  | cons u us ih =>
      by_cases htrivia : u.kind.isTrivia = true
      · simpa [Parse.kinds, significant, kindsOf, Tree.significant, Token.stored, htrivia] using ih
      · simpa [Parse.kinds, significant, kindsOf, Tree.significant, Token.stored, htrivia] using ih

/-- The next kind is the first one ahead. -/
theorem current_of_kinds {k : Kind} {ks : List Kind} {ts : List Token} (h : kinds ts = k :: ks) :
    current ts = k := by
  simp [current, nth, h]

/-- The tokens start with one of kind `k`, which is not trivia. -/
def HeadOf (k : Kind) (xs : Stored) : Prop := k.isTrivia = false ∧ ∃ s ys, xs = (k, s) :: ys

/-- Trivia only. -/
def Lead (xs : Stored) : Prop := ∀ x ∈ xs, x.1.isTrivia = true

/-- Nothing is trivia only. -/
theorem lead_nil : Lead [] := by
  intro x hx
  cases hx

/-- Trivia show no kinds. -/
theorem kindsOf_lead {lead : Stored} (hlead : Lead lead) : kindsOf lead = [] := by
  have hnone : Tree.significant lead = [] :=
    List.filter_eq_nil_iff.2 fun x hx => by simp [hlead x hx]
  rw [kindsOf, hnone]
  rfl

/-- The next kind is that of the first significant token at the front. -/
theorem Starts.current {k : Kind} {lead xs : Stored} {ts rest : List Token}
    (h : Starts (lead ++ xs) ts rest) (hlead : Lead lead) (hxs : HeadOf k xs) : current ts = k := by
  obtain ⟨hk, s, ys, rfl⟩ := hxs
  have hkinds := h.kinds
  rw [kindsOf_append, kindsOf_lead hlead, List.nil_append, kindsOf_cons hk, List.cons_append] at hkinds
  exact current_of_kinds hkinds

/-- Stored tokens as leaves of a tree. -/
def leaves (xs : Stored) : List Tree := xs.map fun x => .token x.1 x.2

/-- No tokens make no leaves. -/
@[simp] theorem leaves_nil : leaves [] = [] := rfl

/-! ## Reading -/

/-- What `p` makes of `xs` where what follows is as `after` asks. -/
def Reads (after : List Token → Prop) (p : Parser) (xs : Stored) (trees : List Tree) : Prop :=
  ∀ ts rest, Starts xs ts rest → after rest → (p ts).cut = false → p ts = ⟨trees, [], rest, false⟩

/-- Nothing is asked of what follows. -/
abbrev Anything : List Token → Prop := fun _ => True

variable {A B : List Token → Prop} {p q : Parser} {ps : List Parser} {xs ys lead : Stored}
  {trees more : List Tree} {k : Kind}

/-- More may be asked of what follows. -/
theorem Reads.weaken (h : Reads A p xs trees) (hAB : ∀ rest, B rest → A rest) : Reads B p xs trees :=
  fun ts rest hstarts hafter => h ts rest hstarts (hAB rest hafter)

/-- No parsers read nothing. -/
theorem Reads.nil : Reads A (all []) [] [] := by
  intro ts rest hstarts _ _
  rw [starts_nil hstarts]
  rfl

/-- Two parsers in order read two rows, if what the second reads is as the first asks of what
follows it. -/
theorem Reads.cons (hp : Reads A p xs trees) (hps : Reads B (all ps) ys more)
    (hlink : ∀ mid rest, Starts ys mid rest → B rest → A mid) :
    Reads B (all (p :: ps)) (xs ++ ys) (trees ++ more) := by
  intro ts rest hstarts hafter hcut
  obtain ⟨mid, hxs, hys⟩ := starts_append hstarts
  obtain ⟨hpCut, hpsCut⟩ := cut_andThen (s := p ts) (p := all ps) hcut
  have hfirst := hp ts mid hxs (hlink mid rest hys hafter) hpCut
  rw [hfirst] at hpsCut
  have hsecond := hps mid rest hys hafter hpsCut
  show (p ts).andThen (all ps) = _
  rw [hfirst]
  simp only [Step.andThen, hsecond, List.append_nil, Bool.or_self]

/-- A single parser as a sequence. -/
theorem Reads.single (hp : Reads A p xs trees) : Reads A (all [p]) xs trees := by
  have h := hp.cons (B := A) .nil fun mid rest hys hafter => by rwa [starts_nil hys]
  simpa using h

/-- Trivia at the front are put in place, and a significant token is then at the front. -/
theorem flush_starts {ts rest : List Token} (h : Starts (lead ++ xs) ts rest) (hlead : Lead lead)
    (hxs : HeadOf k xs) :
    ∃ mid, flush ts = ⟨leaves lead, [], mid, false⟩ ∧ Starts xs mid rest := by
  obtain ⟨hk, s, ys, rfl⟩ := hxs
  obtain ⟨mid, ⟨us, hus, rfl⟩, hmid⟩ := starts_append h
  obtain ⟨t, vs, rfl, ht, -, -⟩ := starts_cons hmid
  refine ⟨t :: vs, ?_, hmid⟩
  have htrivia : ∀ u ∈ us, u.kind.isTrivia = true := by
    intro u hu
    exact hlead u.stored (by rw [← hus]; exact List.mem_map_of_mem hu)
  have hleaves : us.map leaf = leaves lead := by
    rw [← hus, leaves, List.map_map]
    rfl
  have ht' : t.kind.isTrivia = false := by rw [ht, hk]
  unfold flush
  rw [List.takeWhile_append_of_pos htrivia, List.dropWhile_append_of_pos htrivia]
  simp [ht', hleaves]

/-- Trivia before what is read goes in front of it. -/
theorem Reads.flush (h : Reads A q xs trees) (hlead : Lead lead) (hxs : HeadOf k xs) :
    Reads A (all [flush, q]) (lead ++ xs) (leaves lead ++ trees) := by
  intro ts rest hstarts hafter hcut
  obtain ⟨mid, hflush, hmid⟩ := flush_starts hstarts hlead hxs
  rw [all_pair] at hcut ⊢
  dsimp only at hcut ⊢
  rw [hflush] at hcut ⊢
  have hq := h mid rest hmid hafter (cut_andThen hcut).2
  simp only [Step.andThen, hq, List.append_nil, Bool.or_self]

/-- A token is read as a leaf. -/
theorem take_reads (hend : k ≠ .endOfFile) (s : String) :
    Reads Anything take [(k, s)] [.token k s] := by
  intro ts rest hstarts _ _
  obtain ⟨t, us, rfl, hkind, hleaf, hus⟩ := starts_cons hstarts
  rw [starts_nil hus, take, if_neg (by simp [hkind, hend]), hleaf]

/-- A token is read with the trivia before it. -/
theorem bump_reads (hk : k.isTrivia = false) (hend : k ≠ .endOfFile) (s : String)
    (hlead : Lead lead) : Reads Anything bump (lead ++ [(k, s)]) (leaves lead ++ [.token k s]) :=
  (take_reads hend s).flush hlead ⟨hk, s, [], rfl⟩

/-- A choice reads what its first branch reads, where the test holds. -/
theorem Reads.either_pos {look : Look} (hp : Reads A p xs trees)
    (hlook : ∀ ts rest, Starts xs ts rest → A rest → look ts = true) :
    Reads A (either look p q) xs trees := by
  intro ts rest hstarts hafter hcut
  unfold either at hcut ⊢
  rw [if_pos (hlook ts rest hstarts hafter)] at hcut ⊢
  exact hp ts rest hstarts hafter hcut

/-- A choice reads what its second branch reads, where the test fails. -/
theorem Reads.either_neg {look : Look} (hq : Reads A q xs trees)
    (hlook : ∀ ts rest, Starts xs ts rest → A rest → look ts = false) :
    Reads A (either look p q) xs trees := by
  intro ts rest hstarts hafter hcut
  unfold either at hcut ⊢
  rw [if_neg (by rw [hlook ts rest hstarts hafter]; exact Bool.false_ne_true)] at hcut ⊢
  exact hq ts rest hstarts hafter hcut

/-- Doing nothing reads nothing. -/
theorem done_reads : Reads A done [] [] := Reads.nil

/-- An optional part is left out where the test fails. -/
theorem given_reads_none {look : Look} (hlook : ∀ rest, A rest → look rest = false) :
    Reads A (given look p) [] [] :=
  done_reads.either_neg fun ts rest hstarts hafter => by
    rw [starts_nil hstarts]
    exact hlook rest hafter

/-- The token that is expected is read with the trivia before it. -/
theorem expect_reads (hk : k.isTrivia = false) (hend : k ≠ .endOfFile) (s : String)
    (hlead : Lead lead) :
    Reads Anything (expect k) (lead ++ [(k, s)]) (leaves lead ++ [.token k s]) :=
  (bump_reads hk hend s hlead).either_pos fun ts rest hstarts _ => by
    simp [ahead, hstarts.current hlead ⟨hk, s, [], rfl⟩]

/-- What is read becomes a node. -/
theorem Reads.under (h : Reads A p xs trees) : Reads A (under k p) xs [.node k trees] := by
  intro ts rest hstarts hafter hcut
  simp only [Parse.under, h ts rest hstarts hafter hcut]

/-- The trivia before a node stay outside of it. -/
theorem Reads.node {l : Kind} (h : Reads A (all ps) xs trees) (hlead : Lead lead)
    (hxs : HeadOf l xs) : Reads A (node k ps) (lead ++ xs) (leaves lead ++ [.node k trees]) :=
  h.under.flush hlead hxs

/-- A loop whose test fails reads nothing. -/
theorem loop_reads_none {look : Look} {turn : List Token → Turn}
    (hlook : ∀ rest, A rest → look rest = false) : Reads A (loop look turn) [] [] := by
  intro ts rest hstarts hafter _
  rw [starts_nil hstarts]
  unfold loop
  cases rest.length with
  | zero => simp [turns, given, either, hlook rest hafter, done]
  | succ n => simp [turns, hlook rest hafter, done]

/-- A row of items that `pick` wraps once more. -/
theorem wraps_turn {pick : List Token → Option (Kind × List Parser)} {m : Nat} {built : List Tree}
    {ts rest : List Token} (hpick : pick ts = some (k, ps)) (hps : Reads A (all ps) xs trees)
    (hstarts : Starts xs ts rest) (hafter : A rest) (hcut : (wraps pick m built ts).cut = false) :
    ∃ n, wraps pick m built ts = wraps pick n [.node k (built ++ trees)] rest := by
  cases m with
  | zero => simp [wraps, hpick] at hcut
  | succ m =>
      simp only [wraps, hpick] at hcut ⊢
      have hread := hps ts rest hstarts hafter (Bool.or_eq_false_iff.1 hcut).1
      refine ⟨m, ?_⟩
      rw [hread]
      rfl

/-- Where nothing is picked, nothing is wrapped. -/
theorem wraps_none {pick : List Token → Option (Kind × List Parser)} {built : List Tree}
    {ts : List Token} (hpick : pick ts = none) (m : Nat) :
    wraps pick m built ts = ⟨built, [], ts, false⟩ := by
  cases m with
  | zero => simp [wraps, hpick]
  | succ m => simp [wraps, hpick, emit]

end CodeMend.Parse

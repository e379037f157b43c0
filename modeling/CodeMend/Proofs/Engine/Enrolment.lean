import Mathlib.Tactic.ByContra
import Mathlib.Tactic.Tauto
import CodeMend.Engine.Probe

/-!
# Ids that are taken

Rules are registered one after the other, and every id is to belong to one rule.  A registration
that succeeds takes the ids of its rule.  One that is refused keeps those that it claimed before the
clash (`register_cases`): no rule has them, and from then on no rule can (`stranded_run`).  So the
ids that are taken are those of the registered rules if and only if no refused registration changed
anything (`claimed_exact_iff`), that is, if each was refused at its first id (`unchanged_iff`).
-/

namespace CodeMend

/-- A rule to be registered. -/
inductive Entry where
  | analyzer (a : Analyzer)
  | provider (p : FixProvider)
  | refactoring (r : Refactoring)

/-- The ids that a rule claims. -/
def Entry.ids : Entry → List String
  | .analyzer a => a.descriptors.map Descriptor.id
  | .provider _ => []
  | .refactoring r => [r.id]

namespace Enrolment

/-- Registers a rule of any sort. -/
def register (e : Enrolment) : Entry → Enrolment × Option Failure
  | .analyzer a => e.addAnalyzer a
  | .provider p => (e.addProvider p, none)
  | .refactoring r => e.addRefactoring r

/-- What is left of a sequence of registrations, refused ones among them. -/
def run (e : Enrolment) (entries : List Entry) : Enrolment :=
  entries.foldl (fun e c => (e.register c).1) e

/-- The ids of the rules that are registered. -/
def ids (e : Enrolment) : List String :=
  (e.analyzers.flatMap Analyzer.descriptors).map Descriptor.id ++ e.refactorings.map Refactoring.id

/-- Are the ids that are taken those of the registered rules? -/
def Exact (e : Enrolment) : Prop := ∀ id, id ∈ e.claimed ↔ id ∈ e.ids

variable {e : Enrolment} {c : Entry} {id : String}

/-! ## One registration -/

/-- Claiming takes ids from the front, up to the first one that is taken or occurs a second time. -/
theorem claim_eq (ids : List String) (e : Enrolment) : ∃ free rest, ids = free ++ rest ∧
    free.Nodup ∧ (∀ id ∈ free, id ∉ e.claimed) ∧
    (claim ids e).1 = { e with claimed := free.reverse ++ e.claimed } ∧
    (rest = [] ∧ (claim ids e).2 = none ∨
      ∃ id more, rest = id :: more ∧ (id ∈ e.claimed ∨ id ∈ free) ∧
        (claim ids e).2 = some (.rule id "id is already registered")) := by
  induction ids generalizing e with
  | nil => exact ⟨[], [], rfl, List.nodup_nil, by simp, rfl, Or.inl ⟨rfl, rfl⟩⟩
  | cons id ids ih =>
      by_cases htaken : id ∈ e.claimed
      · refine ⟨[], id :: ids, rfl, List.nodup_nil, by simp, ?_, Or.inr ⟨id, ids, rfl, Or.inl htaken, ?_⟩⟩
        · simp [claim, htaken]
        · simp [claim, htaken]
      · obtain ⟨free, rest, hsplit, hnodup, hfree, hstate, houtcome⟩ :=
          ih { e with claimed := id :: e.claimed }
        have hstep : claim (id :: ids) e = claim ids { e with claimed := id :: e.claimed } := by
          simp [claim, htaken]
        refine ⟨id :: free, rest, by rw [hsplit, List.cons_append], ?_, ?_, ?_, ?_⟩
        · exact List.nodup_cons.2 ⟨fun hmem => hfree id hmem List.mem_cons_self, hnodup⟩
        · intro other hother
          rcases List.mem_cons.1 hother with rfl | hother
          · exact htaken
          · exact fun hmem => hfree other hother (List.mem_cons_of_mem _ hmem)
        · rw [hstep, hstate]
          simp
        · rw [hstep]
          refine houtcome.imp_right ?_
          rintro ⟨other, more, hrest, hclash, houtcome⟩
          refine ⟨other, more, hrest, ?_, houtcome⟩
          simp only [List.mem_cons] at hclash ⊢
          tauto

/-- A registration that goes through: the rule is registered, and its ids were free. -/
def Accepted (e : Enrolment) (c : Entry) : Prop :=
  (e.register c).2 = none ∧ (∀ id ∈ c.ids, id ∉ e.claimed) ∧
    (∀ id, id ∈ (e.register c).1.claimed ↔ id ∈ e.claimed ∨ id ∈ c.ids) ∧
    ∀ id, id ∈ (e.register c).1.ids ↔ id ∈ e.ids ∨ id ∈ c.ids

/-- A registration that is refused: the rules stay, but some ids that were free are taken. -/
def Refused (e : Enrolment) (c : Entry) : Prop :=
  (e.register c).2.isSome = true ∧ ∃ free, free <+: c.ids ∧ (∀ id ∈ free, id ∉ e.claimed) ∧
    (e.register c).1 = { e with claimed := free.reverse ++ e.claimed } ∧
    (free = [] ↔ ∀ id, c.ids.head? = some id → id ∈ e.claimed)

/-- What follows from claiming the ids of a rule, whatever is then added to the lists of rules. -/
theorem cases_of_claim (add : Enrolment → Enrolment)
    (hregister : e.register c = match claim c.ids e with
      | (e, none) => (add e, none)
      | (e, some f) => (e, some f))
    (hclaimed : ∀ e, (add e).claimed = e.claimed)
    (hids : ∀ claimed id, id ∈ (add { e with claimed := claimed }).ids ↔ id ∈ e.ids ∨ id ∈ c.ids) :
    Accepted e c ∨ Refused e c := by
  obtain ⟨free, rest, hsplit, -, hfree, hstate, ⟨rfl, houtcome⟩ | ⟨id, more, rfl, hclash, houtcome⟩⟩ :=
    claim_eq c.ids e
  · left
    rw [List.append_nil] at hsplit
    have hafter : e.register c = (add { e with claimed := free.reverse ++ e.claimed }, none) := by
      rw [hregister, ← hstate, ← houtcome]
      generalize claim c.ids e = result at houtcome
      obtain ⟨after, outcome⟩ := result
      obtain rfl : outcome = none := houtcome
      rfl
    refine ⟨by rw [hafter], by rwa [hsplit], fun id => ?_, fun id => ?_⟩
    · rw [hafter, hclaimed, hsplit, List.mem_append, List.mem_reverse, or_comm]
    · rw [hafter, hids]
  · right
    have hafter : e.register c = ({ e with claimed := free.reverse ++ e.claimed },
        some (.rule id "id is already registered")) := by
      rw [hregister, ← hstate, ← houtcome]
      generalize claim c.ids e = result at houtcome
      obtain ⟨after, outcome⟩ := result
      obtain rfl : outcome = some _ := houtcome
      rfl
    refine ⟨by rw [hafter]; rfl, free, ⟨_, hsplit.symm⟩, hfree, by rw [hafter], ?_⟩
    cases free with
    | nil => simpa [hsplit] using hclash
    | cons first free =>
        refine iff_of_false (List.cons_ne_nil _ _) fun hhead => ?_
        exact hfree first List.mem_cons_self (hhead first (by rw [hsplit]; rfl))

/-- **One registration** is accepted or refused. -/
theorem register_cases (e : Enrolment) (c : Entry) : Accepted e c ∨ Refused e c := by
  cases c with
  | analyzer a =>
      by_cases hempty : a.descriptors = []
      · have hrefused : e.register (.analyzer a) =
            (e, some (.rule a.id "analyzer registered without descriptors")) := by
          simp [register, addAnalyzer, hempty]
        refine Or.inr ⟨by rw [hrefused]; rfl, [], List.nil_prefix, by simp, by rw [hrefused]; rfl, ?_⟩
        simp [Entry.ids, hempty]
      · refine cases_of_claim (fun e => { e with analyzers := e.analyzers ++ [a] }) ?_ (fun _ => rfl) ?_
        · rw [register, addAnalyzer, if_neg (by simpa using hempty)]
          rfl
        · intro claimed id
          simp only [ids, Entry.ids, List.flatMap_append, List.map_append, List.mem_append,
            List.flatMap_singleton]
          tauto
  | provider p =>
      exact Or.inl ⟨rfl, by simp [Entry.ids], by simp [Entry.ids, register, addProvider],
        by simp [Entry.ids, register, addProvider, ids]⟩
  | refactoring r =>
      refine cases_of_claim (fun e => { e with refactorings := e.refactorings ++ [r] }) rfl
        (fun _ => rfl) ?_
      intro claimed id
      simp only [ids, Entry.ids, List.map_append, List.mem_append, List.map_singleton]
      tauto

theorem Refused.ids_eq (h : Refused e c) : (e.register c).1.ids = e.ids := by
  obtain ⟨-, free, -, -, hstate, -⟩ := h
  rw [hstate]
  rfl

/-- A refused registration changes nothing if and only if its first id is taken. -/
theorem unchanged_iff (h : (e.register c).2.isSome = true) :
    (e.register c).1 = e ↔ ∀ id, c.ids.head? = some id → id ∈ e.claimed := by
  rcases register_cases e c with haccepted | ⟨-, free, -, -, hstate, hfree⟩
  · rw [haccepted.1] at h
    cases h
  · rw [← hfree, hstate]
    constructor
    · intro heq
      have hclaimed := congrArg (List.length ∘ claimed) heq
      simpa using hclaimed
    · rintro rfl
      rfl

/-! ## Many registrations -/

@[simp] theorem run_nil (e : Enrolment) : e.run [] = e := rfl

theorem run_cons (e : Enrolment) (c : Entry) (entries : List Entry) :
    e.run (c :: entries) = (e.register c).1.run entries := rfl

theorem run_append (e : Enrolment) (before after : List Entry) :
    e.run (before ++ after) = (e.run before).run after := List.foldl_append

/-- The ids of registered rules are taken. -/
def Covered (e : Enrolment) : Prop := ∀ id ∈ e.ids, id ∈ e.claimed

/-- Another registration, refused or not, leaves the ids of registered rules taken. -/
theorem Covered.register (h : e.Covered) (c : Entry) : (e.register c).1.Covered := by
  intro id hid
  rcases register_cases e c with ⟨-, -, hclaimed, hids⟩ | hrefused
  · exact (hclaimed id).2 (((hids id).1 hid).imp_left (h id))
  · rw [hrefused.ids_eq] at hid
    obtain ⟨-, free, -, -, hstate, -⟩ := hrefused
    rw [hstate]
    exact List.mem_append_right _ (h id hid)

theorem Covered.run (h : e.Covered) (entries : List Entry) : (e.run entries).Covered := by
  induction entries generalizing e with
  | nil => exact h
  | cons c entries ih => exact ih (h.register c)

/-- An id that is taken and that no rule has. -/
def Stranded (e : Enrolment) (id : String) : Prop := id ∈ e.claimed ∧ id ∉ e.ids

/-- An id that is taken without a rule stays so: a registration that would give it one is
refused. -/
theorem Stranded.register (h : e.Stranded id) (c : Entry) : (e.register c).1.Stranded id := by
  rcases register_cases e c with ⟨-, hfree, hclaimed, hids⟩ | hrefused
  · refine ⟨(hclaimed id).2 (Or.inl h.1), fun hid => ?_⟩
    exact ((hids id).1 hid).elim h.2 fun hc => hfree id hc h.1
  · refine ⟨?_, by rw [hrefused.ids_eq]; exact h.2⟩
    obtain ⟨-, free, -, -, hstate, -⟩ := hrefused
    rw [hstate]
    exact List.mem_append_right _ h.1

/-- **A stranded id stays so**, whatever is registered. -/
theorem stranded_run (h : e.Stranded id) (entries : List Entry) : (e.run entries).Stranded id := by
  induction entries generalizing e with
  | nil => exact h
  | cons c entries ih => exact ih (h.register c)

/-- Exactness lasts as long as refused registrations change nothing. -/
theorem Exact.register (h : e.Exact)
    (hunchanged : (e.register c).2.isSome = true → (e.register c).1 = e) :
    (e.register c).1.Exact := by
  rcases register_cases e c with ⟨-, -, hclaimed, hids⟩ | hrefused
  · exact fun id => (hclaimed id).trans ((or_congr_left (h id)).trans (hids id).symm)
  · rwa [hunchanged hrefused.1]

/-- A refused registration that changes something strands an id. -/
theorem exists_stranded (h : e.Covered) (hrefused : (e.register c).2.isSome = true)
    (hchanged : (e.register c).1 ≠ e) : ∃ id, (e.register c).1.Stranded id := by
  rcases register_cases e c with haccepted | hcase
  · rw [haccepted.1] at hrefused
    cases hrefused
  · have hids := hcase.ids_eq
    obtain ⟨-, free, -, hfree, hstate, -⟩ := hcase
    cases free with
    | nil => exact absurd hstate hchanged
    | cons id free =>
        have hmem : id ∈ id :: free := List.mem_cons_self
        refine ⟨id, ?_, ?_⟩
        · rw [hstate]
          exact List.mem_append_left _ (List.mem_reverse.2 hmem)
        · rw [hids]
          exact fun hid => hfree id hmem (h id hid)

/-- **The ids that are taken are those of the registered rules** if and only if every registration
that was refused left all as it was. -/
theorem claimed_exact_iff (entries : List Entry) : Exact (run {} entries) ↔
    ∀ before c after, entries = before ++ c :: after →
      ((run {} before).register c).2.isSome = true →
      ((run {} before).register c).1 = run {} before := by
  have hstart : Exact {} := fun id => Iff.rfl
  have hcovered : Covered {} := fun id => (hstart id).2
  constructor
  · rintro hexact before c after rfl hrefused
    by_contra hchanged
    obtain ⟨id, hid⟩ := exists_stranded (hcovered.run before) hrefused hchanged
    have hend := stranded_run hid after
    rw [← run_cons, ← run_append] at hend
    exact hend.2 ((hexact id).1 hend.1)
  · intro hunchanged
    -- the longer the part of the sequence, the later the registration that is looked at
    have hpart (done rest : List Entry) (hsplit : entries = done ++ rest) (h : Exact (run {} done)) :
        Exact (run {} entries) := by
      induction rest generalizing done with
      | nil => rwa [hsplit, List.append_nil]
      | cons c rest ih =>
          refine ih (done ++ [c]) (by rw [hsplit, List.append_assoc]; rfl) ?_
          rw [run_append]
          exact h.register (hunchanged done c rest hsplit)
    exact hpart [] entries rfl hstart

/-- A pair whose second id is taken is refused, but keeps its first id: no rule has it, and the next
rule with that id is refused too. -/
theorem not_claimed_exact :
    let entries : List Entry := [.analyzer ⟨[Probe.echo], [], Probe.echoing⟩,
      .analyzer ⟨[Probe.pairA, Probe.echo], [], Probe.pairing⟩]
    let e := run {} entries
    (e.claimed.contains "TST0004" = true ∧ e.ids.contains "TST0004" = false) ∧
      (e.register (.analyzer ⟨[Probe.pairA, Probe.pairB], [], Probe.pairing⟩)).2 =
        some (.rule "TST0004" "id is already registered") := by
  decide +kernel

end Enrolment

end CodeMend

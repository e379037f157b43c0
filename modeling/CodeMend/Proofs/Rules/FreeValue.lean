import CodeMend.Rules.DuplicateValue
import Mathlib.Algebra.Order.Ring.Int
import Mathlib.Data.List.Nodup
import Mathlib.Data.List.Perm.Subperm
import Mathlib.Data.Set.Basic
import Mathlib.Order.Bounds.Defs

/-!
# Free values

The search for a free value goes up through the numbers, one after the other or by doubling, and
passes over the words that are not free.  `Ascent.Run` says what it does step by step, and `run_seek`
that the search is such a run and so comes to its end.

The number that is looked at in a step is the exact one (`Run.numbers`), and what a run gives is the
word of the first number that is not passed over, if that number is one (`Run.result`).  Since numbers
rise along the way, this is the least word on the way that is free, and there is none only if no word
on the way is (`Run.least`).  The numbers above a value and the powers of two are such ways
(`nextFreeValue_least`).
-/

namespace CodeMend.Rules.DuplicateValue

namespace Ascent

variable {a : Ascent} {passes : Int64 → Bool} {start r : Option Int64} {cs : List Int64} {n : Int}

/-- A run of the search from a word on, if there is one: the words that are passed over, in their
order, and the word that is found. -/
inductive Run (a : Ascent) (passes : Int64 → Bool) :
    Option Int64 → List Int64 → Option Int64 → Prop where
  | spent : Run a passes none [] none
  | found {c : Int64} (free : passes c = false) : Run a passes (some c) [] (some c)
  | onward {c : Int64} {cs : List Int64} {r : Option Int64} (passed : passes c = true)
      (rest : Run a passes (a.next c) cs r) : Run a passes (some c) (c :: cs) r

/-- **The search is a run.** -/
theorem run_seek (c : Int64) (on : a.On c.toInt) :
    ∃ cs, a.Run passes (some c) cs (a.seek passes c on) := by
  fun_induction seek a passes c on with
  | case1 c on hpassed hlast => exact ⟨[c], .onward hpassed (by rw [hlast]; exact .spent)⟩
  | case2 c on hpassed d hnext ih =>
      obtain ⟨cs, hrun⟩ := ih
      exact ⟨c :: cs, .onward hpassed (by rw [hnext]; exact hrun)⟩
  | case3 c on hfree => exact ⟨[], .found (Bool.eq_false_iff.2 hfree)⟩

theorem Run.passes_of_mem (h : a.Run passes start cs r) : ∀ w ∈ cs, passes w = true := by
  induction h with
  | spent => exact nofun
  | found free => exact nofun
  | onward passed rest ih => exact List.forall_mem_cons.2 ⟨passed, ih⟩

theorem Run.free_of_some (h : a.Run passes start cs r) {v : Int64} (hv : r = some v) :
    passes v = false := by
  induction h with
  | spent => cases hv
  | found free => exact Option.some.inj hv ▸ free
  | onward passed rest ih => exact ih hv

/-- **What a run passes over are the numbers of the way**, none left out. -/
theorem Run.numbers (h : a.Run passes start cs r) (hstart : start = Constant.checked n) :
    cs.map Int64.toInt = (List.range cs.length).map fun k => a.grow^[k] n := by
  induction h generalizing n with
  | spent => rfl
  | found free => rfl
  | @onward c cs r passed rest ih =>
      obtain rfl : c.toInt = n := Constant.checked_iff.1 hstart.symm
      rw [List.map_cons, ih rfl, List.length_cons, List.range_succ_eq_map, List.map_cons, List.map_map]
      rfl

/-- **What a run gives is the word of the number behind them**, if a word has it. -/
theorem Run.result (h : a.Run passes start cs r) (hstart : start = Constant.checked n) :
    r = Constant.checked (a.grow^[cs.length] n) := by
  induction h generalizing n with
  | spent => exact hstart
  | found free => exact hstart
  | @onward c cs r passed rest ih =>
      obtain rfl : c.toInt = n := Constant.checked_iff.1 hstart.symm
      exact ih rfl

/-- Numbers rise along the way. -/
theorem numbers_le (on : a.On n) {i j : Nat} (hij : i ≤ j) : a.grow^[i] n ≤ a.grow^[j] n := by
  have hon (k : Nat) : a.On (a.grow^[k] n) := by
    induction k with
    | zero => exact on
    | succ k ih =>
        rw [Function.iterate_succ_apply']
        exact (a.rises ih).2
  induction hij with
  | refl => exact Int.le_refl _
  | @step k _ ih =>
      rw [Function.iterate_succ_apply']
      exact Int.le_trans ih (Int.le_of_lt (a.rises (hon k)).1)

/-- The words on a way that are not passed over. -/
def Kept (a : Ascent) (passes : Int64 → Bool) (n : Int) : Set Int64 :=
  {w | (∃ k : Nat, w.toInt = a.grow^[k] n) ∧ passes w = false}

/-- A number between two words is one. -/
theorem exists_checked {low high : Int64} (hlow : low.toInt ≤ n) (hhigh : n ≤ high.toInt) :
    ∃ v, Constant.checked n = some v := by
  have hmin := Int64.le_toInt low
  have hmax := Int64.toInt_lt high
  exact ⟨.ofInt n, Constant.checked_iff.2 (Int64.toInt_ofInt_of_le (by omega) (by omega))⟩

/-- What a run gives is kept, and it is not greater than any other kept word. -/
theorem Run.isLeast_of_kept (h : a.Run passes (Constant.checked n) cs r) (on : a.On n) {low : Int64}
    (hlow : low.toInt ≤ n) {w : Int64} (hw : w ∈ a.Kept passes n) :
    ∃ v, r = some v ∧ v ≤ w := by
  obtain ⟨⟨k, hk⟩, hfree⟩ := hw
  -- were it before the end of the run, it would be passed over
  have hlength : cs.length ≤ k := by
    by_contra hlt
    have hmem : w.toInt ∈ cs.map Int64.toInt := by
      rw [h.numbers rfl, hk]
      exact List.mem_map_of_mem (List.mem_range.2 (Nat.lt_of_not_le hlt))
    obtain ⟨u, hu, hsame⟩ := List.mem_map.1 hmem
    rw [Int64.toInt_inj.1 hsame] at hu
    exact Bool.noConfusion (hfree.symm.trans (h.passes_of_mem w hu))
  have hle : a.grow^[cs.length] n ≤ w.toInt := hk ▸ numbers_le on hlength
  have hge : n ≤ a.grow^[cs.length] n := numbers_le on (Nat.zero_le cs.length)
  obtain ⟨v, hv⟩ := exists_checked (Int.le_trans hlow hge) hle
  exact ⟨v, (h.result rfl).trans hv, Int64.le_iff_toInt_le.2 (Constant.checked_iff.1 hv ▸ hle)⟩

/-- **A run gives the least kept word**, and nothing if no word is kept. -/
theorem Run.least (h : a.Run passes (Constant.checked n) cs r) (on : a.On n) {low : Int64}
    (hlow : low.toInt ≤ n) :
    (∀ v, r = some v ↔ IsLeast (a.Kept passes n) v) ∧ (r = none ↔ a.Kept passes n = ∅) := by
  have hleast {v : Int64} (hv : r = some v) : IsLeast (a.Kept passes n) v := by
    refine ⟨⟨⟨cs.length, Constant.checked_iff.1 ((h.result rfl).symm.trans hv)⟩, h.free_of_some hv⟩, ?_⟩
    intro w hw
    obtain ⟨v', hv', hle⟩ := h.isLeast_of_kept on hlow hw
    exact Option.some.inj (hv.symm.trans hv') ▸ hle
  constructor
  · refine fun v => ⟨hleast, fun hv => ?_⟩
    obtain ⟨u, hu, hle⟩ := h.isLeast_of_kept on hlow hv.1
    rw [hu, Int64.le_antisymm hle (hv.2 (hleast hu).1)]
  · constructor
    · rintro rfl
      refine Set.eq_empty_iff_forall_notMem.2 fun w hw => ?_
      obtain ⟨v, hv, -⟩ := h.isLeast_of_kept on hlow hw
      cases hv
    · intro hempty
      refine Option.eq_none_iff_forall_ne_some.2 fun v hv => ?_
      have hmem := (hleast hv).1
      rw [hempty] at hmem
      exact hmem

end Ascent

/-! ## The ways of the two searches -/

theorem counting_number (n : Int) (k : Nat) : Ascent.counting.grow^[k] n = n + k := by
  induction k with
  | zero => exact (Int.add_zero n).symm
  | succ k ih =>
      rw [Function.iterate_succ_apply', ih]
      show n + k + 1 = n + (k + 1 : Nat)
      omega

theorem doubling_number (k : Nat) : Ascent.doubling.grow^[k] 1 = 2 ^ k := by
  induction k with
  | zero => rfl
  | succ k ih =>
      rw [Function.iterate_succ_apply', ih, Int.pow_succ]
      rfl

/-- The free values above a value; for flags, the powers of two among them. -/
def freeAbove (value : Int64) (used : List Int64) (flags : Bool) : Set Int64 :=
  {w | value < w ∧ w ∉ used ∧ (flags = true → ∃ k : Nat, w.toInt = 2 ^ k)}

/-- A run of the search for a free value: the candidates that it passes over, and what it finds. -/
def Searches (value : Int64) (used : List Int64) (flags : Bool) (passed : List Int64)
    (found : Option Int64) : Prop :=
  if flags then Ascent.doubling.Run (fun c => c ≤ value || used.contains c) (some 1) passed found
  else Ascent.counting.Run used.contains (Ascent.counting.next value) passed found

/-- The numbers that such a run goes through. -/
def candidate (value : Int64) (flags : Bool) (k : Nat) : Int :=
  if flags then 2 ^ k else value.toInt + 1 + k

variable {value : Int64} {used : List Int64}

theorem kept_doubling : Ascent.doubling.Kept (fun c => c ≤ value || used.contains c) 1 =
    freeAbove value used true := by
  ext w
  have hfree : (decide (w ≤ value) || used.contains w) = false ↔ value < w ∧ w ∉ used := by simp
  simp only [Ascent.Kept, freeAbove, Set.mem_ofPred_eq, doubling_number, hfree, forall_const]
  rw [and_comm, and_assoc]

/-- Counting up goes through all words above the value that are free. -/
theorem kept_counting : Ascent.counting.Kept used.contains (value.toInt + 1) =
    freeAbove value used false := by
  ext w
  have hway : (∃ k : Nat, w.toInt = value.toInt + 1 + k) ↔ value < w := by
    rw [Int64.lt_iff_toInt_lt]
    exact ⟨fun ⟨k, hk⟩ => by omega, fun h => ⟨(w.toInt - value.toInt - 1).toNat, by omega⟩⟩
  have hfree : used.contains w = false ↔ w ∉ used := by simp
  simp only [Ascent.Kept, freeAbove, Set.mem_ofPred_eq, counting_number, hway, hfree,
    Bool.false_eq_true, false_implies, and_true]

/-- The search for a free value is such a run. -/
theorem exists_searches (value : Int64) (used : List Int64) (flags : Bool) :
    ∃ passed, Searches value used flags passed (nextFreeValue value used flags) := by
  unfold nextFreeValue Searches
  cases flags with
  | true => exact Ascent.run_seek _ _
  | false =>
      cases hstart : Ascent.counting.next value with
      | none => exact ⟨[], .spent⟩
      | some c => exact Ascent.run_seek c trivial

variable {passed : List Int64} {found : Option Int64} {flags : Bool}

/-- The numbers that a search passes are the first candidates. -/
theorem Searches.numbers (h : Searches value used flags passed found) :
    passed.map Int64.toInt = (List.range passed.length).map (candidate value flags) := by
  cases flags with
  | true =>
      rw [Ascent.Run.numbers h (n := 1) rfl]
      exact List.map_congr_left fun k _ => doubling_number k
  | false =>
      rw [Ascent.Run.numbers h (n := value.toInt + 1) rfl]
      exact List.map_congr_left fun k _ => counting_number _ k

/-- A search finds the least free word above the value, and nothing exactly if there is none. -/
theorem Searches.least (h : Searches value used flags passed found) :
    (∀ v, found = some v ↔ IsLeast (freeAbove value used flags) v) ∧
      (found = none ↔ freeAbove value used flags = ∅) := by
  cases flags with
  | true =>
      have hlow : (1 : Int64).toInt ≤ 1 := Int.le_refl 1
      rw [← kept_doubling]
      exact Ascent.Run.least h (show (0 : Int) < 1 by decide) hlow
  | false =>
      have hlow : value.toInt ≤ value.toInt + 1 := by omega
      rw [← kept_counting]
      exact Ascent.Run.least h trivial hlow

/-- **A run passes over no more candidates than there are used values**, or powers of two. -/
theorem Searches.length_le (h : Searches value used flags passed found) :
    passed.length ≤ if flags then 63 else used.length := by
  cases flags with
  | true =>
      cases hlength : passed.length with
      | zero => exact Nat.zero_le _
      | succ k =>
          -- the last of them is a power of two, and a word
          have hlast : (2 : Int) ^ k ∈ passed.map Int64.toInt := by
            rw [h.numbers, hlength]
            exact List.mem_map_of_mem (List.mem_range.2 (Nat.lt_succ_self k))
          obtain ⟨w, -, hw⟩ := List.mem_map.1 hlast
          have hroom : (2 : Int) ^ k < 2 ^ 63 := hw ▸ Int64.toInt_lt w
          exact (Nat.pow_lt_pow_iff_right (a := 2) (by decide)).1 (by exact_mod_cast hroom)
  | false =>
      have hnodup : passed.Nodup := by
        refine List.Nodup.of_map Int64.toInt ?_
        rw [h.numbers]
        refine List.nodup_range.map fun i j hij => ?_
        have hsame : value.toInt + 1 + i = value.toInt + 1 + j := hij
        omega
      have hused : passed ⊆ used := fun w hw =>
        List.contains_iff_mem.1 (Ascent.Run.passes_of_mem h w hw)
      exact (hnodup.subperm hused).length_le

/-- **The next free value.**  It is the least free value above a value, for flags the least power of
two among them, and there is none only if the word holds no such value.  The search comes to its end
behind at most as many candidates as there are used values, for flags at most the 63 powers of two that
fit the word, and each candidate is the exact number. -/
theorem nextFreeValue_least (value : Int64) (used : List Int64) (flags : Bool) :
    (∀ v, nextFreeValue value used flags = some v ↔ IsLeast (freeAbove value used flags) v) ∧
    (nextFreeValue value used flags = none ↔ freeAbove value used flags = ∅) ∧
    ∃ passed, Searches value used flags passed (nextFreeValue value used flags) ∧
      passed.map Int64.toInt = (List.range passed.length).map (candidate value flags) ∧
      passed.length ≤ if flags then 63 else used.length := by
  obtain ⟨passed, hsearch⟩ := exists_searches value used flags
  obtain ⟨hsome, hnone⟩ := hsearch.least
  exact ⟨hsome, hnone, passed, hsearch, hsearch.numbers, hsearch.length_le⟩

end CodeMend.Rules.DuplicateValue

import CodeMend.Proofs.Rules.DuplicateValue
import CodeMend.Proofs.Semantic.Growing
import Mathlib.Algebra.Order.Ring.Int

/-!
# The name and the value of a new member

The name is no name of another member (`freshName_spec`): there are more numbered names than names
that are taken.  The value follows those of the others (`nextValue?_spec`).  With both, the tree of the
new member is the one that its text is read as (`newMember?_spec`).
-/

namespace CodeMend.Rules.NewEnumMember

open Lexer Site Text Tree

/-! ## The name -/

/-- The numbered names. -/
theorem mem_names {taken : List String} {name : String}
    (h : name ∈ baseName :: (List.range (taken.length + 1)).map fun n => baseName ++ toString (n + 2)) :
    ∃ digits : List Char, name = String.ofList (baseName.toList ++ digits) ∧
      ∀ c ∈ digits, c.isDigit = true := by
  rcases List.mem_cons.1 h with rfl | h
  · exact ⟨[], by simp, by simp⟩
  · obtain ⟨n, -, rfl⟩ := List.mem_map.1 h
    obtain ⟨c, cs, hdigits, hall⟩ := digits_repr (n + 2)
    refine ⟨(toString (n + 2)).toList, ?_, by rwa [hdigits]⟩
    rw [String.ofList_append, String.ofList_toList, String.ofList_toList]

theorem toString_injective {m n : Nat} (h : toString m = toString n) : m = n := by
  rw [Nat.toString_eq_ofList_toDigits, Nat.toString_eq_ofList_toDigits, String.ofList_inj] at h
  rw [← Nat.ofDigitChars_toDigits (b := 10) (n := m) (by decide) (by decide), h,
    Nat.ofDigitChars_toDigits (by decide) (by decide)]

theorem nodup_names (n : Nat) :
    ((List.range n).map fun n => baseName ++ toString (n + 2)).Nodup := by
  refine List.nodup_range.map fun a b h => ?_
  have hlists := congrArg String.toList h
  simp only [String.toList_append] at hlists
  have hnumber := toString_injective (String.toList_inj.1 (List.append_cancel_left hlists))
  omega

/-- The name is free: there are more numbered names than names that are taken. -/
theorem freshName_spec (taken : List String) : freshName taken ∉ taken ∧
    ∃ digits : List Char, freshName taken = String.ofList (baseName.toList ++ digits) ∧
      ∀ c ∈ digits, c.isDigit = true := by
  unfold freshName
  dsimp only
  cases hfind : List.find? _ _ with
  | some name =>
      exact ⟨by simpa using List.find?_some hfind, mem_names (List.mem_of_find?_eq_some hfind)⟩
  | none =>
      have htaken : ((List.range (taken.length + 1)).map fun n => baseName ++ toString (n + 2)) ⊆
          taken := by
        intro name hname
        simpa using List.find?_eq_none.1 hfind name (List.mem_cons_of_mem _ hname)
      have hlength := (nodup_names (taken.length + 1)).length_le_of_subset htaken
      rw [List.length_map, List.length_range] at hlength
      omega

/-- No keyword starts with a capital. -/
theorem keyword?_eq_none {word : String} (h : word.toList.head? = some 'E') : keyword? word = none := by
  unfold keyword?
  split <;> first | rfl | exact absurd h (by decide)

/-- The name is an identifier. -/
theorem spelled_freshName (taken : List String) : Lexer.Spelled .ident (freshName taken) := by
  obtain ⟨-, digits, hname, hdigits⟩ := freshName_spec taken
  rw [hname]
  have hword : ∀ c ∈ baseName.toList ++ digits, isWordPart c = true := by
    intro c hc
    rcases List.mem_append.1 hc with hc | hc
    · have halpha : ∀ c ∈ baseName.toList, c.isAlpha = true := by simp [baseName]
      exact isWordPart_of_isAlpha (halpha c hc)
    · exact isWordPart_of_isDigit (hdigits c hc)
  have htake : (baseName.toList ++ digits).takeWhile isWordPart = baseName.toList ++ digits :=
    List.takeWhile_eq_self_iff.2 hword
  refine @spelled_of_lexeme _ rfl 'E' ("numMember".toList ++ digits) ?_
  rw [lexeme_of_isWordStart (by decide)]
  show scanWord (baseName.toList ++ digits) = _
  unfold scanWord
  dsimp only
  rw [htake, keyword?_eq_none (by simp [baseName])]
  rfl

/-! ## The value -/

instance lawfulOrderMaxInt64 : Std.LawfulOrderMax Int64 where
  max_eq_or a b := by
    show (if a ≤ b then b else a) = a ∨ (if a ≤ b then b else a) = b
    split
    · exact Or.inr rfl
    · exact Or.inl rfl
  max_le_iff a b c := by
    show (if a ≤ b then b else a) ≤ c ↔ _
    split <;> simp only [Int64.le_iff_toInt_le] at * <;> omega

/-- What the value of a new member is to the values of the others. -/
structure Following (values : List Int64) (flags : Bool) (value : Int64) : Prop where
  above : ∀ v ∈ values, v < value
  next : flags = false → (values = [] ∧ value = 0) ∨
    ∃ v ∈ values, (∀ w ∈ values, w ≤ v) ∧ value.toInt = v.toInt + 1
  power : flags = true → ∃ n, value.toInt = 2 ^ n ∧ ∀ m < n, ∃ v ∈ values, 2 ^ m ≤ v.toInt

/-- The value of a new member is never the least word. -/
theorem Following.minValue_lt {values : List Int64} {flags : Bool} {value : Int64}
    (h : Following values flags value) : Int64.minValue < value := by
  rw [Int64.lt_iff_toInt_lt, Int64.toInt_minValue]
  cases flags with
  | true =>
      obtain ⟨n, hvalue, -⟩ := h.power rfl
      have hpos : (0 : Int) < 2 ^ n := Int.pow_pos (by decide)
      omega
  | false =>
      rcases h.next rfl with ⟨-, rfl⟩ | ⟨v, -, -, hvalue⟩
      · decide
      · have hmin := v.le_toInt
        omega

theorem toInt_power {n : Nat} (h : n < 63) : (Int64.ofNat (Nat.pow 2 n)).toInt = 2 ^ n := by
  show (Int64.ofNat (2 ^ n)).toInt = 2 ^ n
  rw [Int64.toInt_ofNat_of_lt (Nat.pow_lt_pow_right (by decide) h), Int.natCast_pow]
  rfl

theorem le_max? {values : List Int64} {v : Int64} (hv : v ∈ values) :
    ∃ g ∈ values, values.max? = some g ∧ v ≤ g := by
  obtain ⟨g, hg⟩ := Option.isSome_iff_exists.1 (List.isSome_max?_of_mem hv)
  obtain ⟨hmem, hle⟩ := List.max?_eq_some_iff.1 hg
  exact ⟨g, hmem, hg, hle v hv⟩

/-- In a range the numbers before one are the smaller ones. -/
theorem mem_of_range_split {k n m : Nat} {low high : List Nat} (h : List.range k = low ++ n :: high)
    (hm : m < n) : m ∈ low := by
  have hlength : low.length = n := by
    have hat := congrArg (·[low.length]?) h
    have hlt : low.length < k := by
      have hsum := congrArg List.length h
      simp only [List.length_range, List.length_append, List.length_cons] at hsum
      omega
    simpa [List.getElem?_range, hlt] using hat
  have hat := congrArg (·[m]?) h
  have hlt : m < k := by
    have hn : n ∈ List.range k := by
      rw [h]
      simp
    exact hm.trans (List.mem_range.1 hn)
  simp only [List.getElem?_append_left (hlength.symm ▸ hm), List.getElem?_range hlt] at hat
  exact List.mem_of_getElem? hat.symm

/-- **The value of the new member**: for flags the least power of two above the others, else one
more than the greatest of them, where that is a word. -/
theorem nextValue?_spec {values : List Int64} {flags : Bool} {value : Int64}
    (h : nextValue? values flags = some value) : Following values flags value := by
  unfold nextValue? at h
  dsimp only at h
  split at h
  · next hflags =>
    obtain ⟨habove, smaller, greater, hsplit, hsmaller⟩ := List.find?_eq_some_iff_append.1 h
    obtain ⟨low, rest, hrange, rfl, hrest⟩ := List.map_eq_append_iff.1 hsplit
    obtain ⟨n, high, rfl, rfl, -⟩ := List.map_eq_cons_iff.1 hrest
    have hbound {m : Nat} (hm : m ≤ n) : m < 63 := by
      have hn : n ∈ List.range 63 := by
        rw [hrange]
        simp
      exact Nat.lt_of_le_of_lt hm (List.mem_range.1 hn)
    refine ⟨fun v hv => ?_, fun hnot => absurd (hflags.symm.trans hnot) (by decide), fun _ =>
      ⟨n, toInt_power (hbound (Nat.le_refl n)), fun m hm => ?_⟩⟩
    · obtain ⟨g, -, hg, hle⟩ := le_max? hv
      rw [hg, Option.all_some, decide_eq_true_eq] at habove
      rw [Int64.lt_iff_toInt_lt] at habove ⊢
      rw [Int64.le_iff_toInt_le] at hle
      omega
    · -- a smaller power is not above the greatest value
      have hnot := hsmaller _ (List.mem_map_of_mem (mem_of_range_split hrange hm))
      cases hg : values.max? with
      | none =>
          rw [hg] at hnot
          cases hnot
      | some g =>
          rw [hg, Option.all_some] at hnot
          refine ⟨g, (List.max?_eq_some_iff.1 hg).1, ?_⟩
          rw [← toInt_power (hbound (Nat.le_of_lt hm))]
          have hge : ¬ g < Int64.ofNat (Nat.pow 2 m) := by simpa using hnot
          rw [Int64.lt_iff_toInt_lt] at hge
          omega
  · next hflags =>
    refine ⟨fun v hv => ?_, fun _ => ?_, fun hyes => absurd hyes hflags⟩
    · obtain ⟨g, -, hg, hle⟩ := le_max? hv
      rw [hg] at h
      have hvalue := Constant.checked_iff.1 h
      rw [Int64.le_iff_toInt_le] at hle
      rw [Int64.lt_iff_toInt_lt]
      omega
    · cases hg : values.max? with
      | none =>
          rw [hg] at h
          exact Or.inl ⟨List.max?_eq_none_iff.1 hg, (Option.some.inj h).symm⟩
      | some g =>
          rw [hg] at h
          obtain ⟨hmem, hle⟩ := List.max?_eq_some_iff.1 hg
          exact Or.inr ⟨g, hmem, hle, Constant.checked_iff.1 h⟩

/-- The constants that are these numbers. -/
def constants (values : List Int64) : List (Option Constant) := values.map fun v => some (.int v)

/-- Where a function has results for all elements, they are its results one by one. -/
theorem map_eq_of_mapM {α β : Type} {f : α → Option β} {xs : List α} {ys : List β}
    (h : xs.mapM f = some ys) : xs.map f = ys.map some := by
  induction xs generalizing ys with
  | nil =>
      obtain rfl := Option.some.inj h
      rfl
  | cons x xs ih =>
      rw [List.mapM_cons] at h
      obtain ⟨y, hy, h⟩ := Option.bind_eq_some_iff.1 h
      obtain ⟨zs, hzs, h⟩ := Option.bind_eq_some_iff.1 h
      obtain rfl := Option.some.inj h
      rw [List.map_cons, List.map_cons, hy, ih hzs]

/-- The new member: it has a free name and the value that follows those of the others. -/
theorem newMember?_spec {m : Model} {enum : Site} {member : Tree} {name : String}
    (h : newMember? m enum = some (member, name)) :
    name = freshName (enum.enumMembers.filterMap identText?) ∧ ∃ values value,
      enum.enumMembers.map m.constant? = constants values ∧
      Following values (DuplicateValue.isFlags enum) value ∧
      member = newMember name value.toInt := by
  unfold newMember? at h
  obtain ⟨values, hvalues, h⟩ := Option.bind_eq_some_iff.1 h
  obtain ⟨value, hvalue, h⟩ := Option.bind_eq_some_iff.1 h
  obtain ⟨member', hmember, h⟩ := Option.bind_eq_some_iff.1 h
  obtain ⟨rfl, rfl⟩ := Prod.mk.inj (Option.some.inj h)
  refine ⟨rfl, values, value, ?_, nextValue?_spec hvalue, ?_⟩
  · have hknown := map_eq_of_mapM hvalues
    have hconstant := congrArg (List.map fun v => v.map Constant.int) hknown
    rw [List.map_map, List.map_map] at hconstant
    refine Eq.trans (List.map_congr_left fun s hs => ?_) hconstant
    obtain ⟨v, hv⟩ : ∃ v, DuplicateValue.memberValue? m s = some v := by
      have hmem := List.mem_map_of_mem (f := DuplicateValue.memberValue? m) hs
      rw [hknown] at hmem
      obtain ⟨v, -, hv⟩ := List.mem_map.1 hmem
      exact ⟨v, hv.symm⟩
    rw [Function.comp_apply, hv, DuplicateValue.constant_of_memberValue hv]
    rfl
  · have hspelled := spelled_freshName (enum.enumMembers.filterMap identText?)
    have hsnippet := (Snippet.fits_numeral value.toInt).enumMember_eq hspelled
    rw [text_numeral] at hsnippet
    exact Option.some.inj (hmember.symm.trans hsnippet)

end CodeMend.Rules.NewEnumMember

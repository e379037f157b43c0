import CodeMend.Semantic.Constant

/-!
# What operators mean

Operators on constants, told by what their results are and not by how they are computed.  Integers
stand for numbers: a sum, a difference, a product or a quotient is a word whose number is the exact
result, so there is none where no word has that number.  Bitwise operators and shifts act on the 64
bits of a word.

The evaluation computes exactly these values (`unary_iff`, `binary_iff`, `rightShift_iff`).
-/

namespace CodeMend.Constant

/-! ## Values of operators -/

/-- The value of an operator before its operand. -/
inductive UnaryValue : Kind → Constant → Constant → Prop
  | minus {a n : Int64} : n.toInt = -a.toInt → UnaryValue .minus (int a) (int n)
  | plus {a : Int64} : UnaryValue .plus (int a) (int a)
  | tilde {a n : Int64} : n.toBitVec = ~~~a.toBitVec → UnaryValue .tilde (int a) (int n)
  | bang {a : Bool} : UnaryValue .bang (bool a) (bool !a)

/-- The value of an operator between integers. -/
inductive IntValue (a b : Int64) : Kind → Constant → Prop
  | plus {n : Int64} : n.toInt = a.toInt + b.toInt → IntValue a b .plus (int n)
  | minus {n : Int64} : n.toInt = a.toInt - b.toInt → IntValue a b .minus (int n)
  | star {n : Int64} : n.toInt = a.toInt * b.toInt → IntValue a b .star (int n)
  | slash {n : Int64} : b.toInt ≠ 0 → n.toInt = a.toInt.tdiv b.toInt → IntValue a b .slash (int n)
  /-- There is no remainder where the quotient is no word: of the least word by -1. -/
  | percent {q n : Int64} : b.toInt ≠ 0 → q.toInt = a.toInt.tdiv b.toInt →
      n.toInt = a.toInt.tmod b.toInt → IntValue a b .percent (int n)
  | ltLt {n : Int64} : 0 ≤ b.toInt → b.toInt < 64 →
      n.toBitVec = a.toBitVec <<< b.toInt.toNat → IntValue a b .ltLt (int n)
  | amp {n : Int64} : n.toBitVec = a.toBitVec &&& b.toBitVec → IntValue a b .amp (int n)
  | pipe {n : Int64} : n.toBitVec = a.toBitVec ||| b.toBitVec → IntValue a b .pipe (int n)
  | caret {n : Int64} : n.toBitVec = a.toBitVec ^^^ b.toBitVec → IntValue a b .caret (int n)
  | eqEq : IntValue a b .eqEq (bool (decide (a.toInt = b.toInt)))
  | bangEq : IntValue a b .bangEq (bool (decide (a.toInt ≠ b.toInt)))
  | lt : IntValue a b .lt (bool (decide (a.toInt < b.toInt)))
  | gt : IntValue a b .gt (bool (decide (b.toInt < a.toInt)))
  | ltEq : IntValue a b .ltEq (bool (decide (a.toInt ≤ b.toInt)))
  | gtEq : IntValue a b .gtEq (bool (decide (b.toInt ≤ a.toInt)))

/-- The value of an operator between its operands, which are of one type. -/
inductive BinaryValue : Kind → Constant → Constant → Constant → Prop
  | ints {k : Kind} {a b : Int64} {v : Constant} : IntValue a b k v →
      BinaryValue k (int a) (int b) v
  | both {k : Kind} {a b : Bool} : k = .ampAmp ∨ k = .amp →
      BinaryValue k (bool a) (bool b) (bool (a && b))
  | some {k : Kind} {a b : Bool} : k = .pipePipe ∨ k = .pipe →
      BinaryValue k (bool a) (bool b) (bool (a || b))
  | apart {k : Kind} {a b : Bool} : k = .caret ∨ k = .bangEq →
      BinaryValue k (bool a) (bool b) (bool (a != b))
  | alike {a b : Bool} : BinaryValue .eqEq (bool a) (bool b) (bool (a == b))
  | joined {a b : String} : BinaryValue .plus (string a) (string b) (string (a ++ b))
  | equal {a b : String} : BinaryValue .eqEq (string a) (string b) (bool (a == b))
  | different {a b : String} : BinaryValue .bangEq (string a) (string b) (bool (a != b))

/-- The value of a right shift. -/
inductive ShiftValue : Constant → Constant → Constant → Prop
  | ints {a b n : Int64} : 0 ≤ b.toInt → b.toInt < 64 →
      n.toBitVec = a.toBitVec.sshiftRight b.toInt.toNat → ShiftValue (int a) (int b) (int n)

/-! ## Words and numbers -/

/-- A checked result is there exactly if some word has its number. -/
theorem map_checked_iff {x : Int} {v : Constant} :
    (checked x).map int = some v ↔ ∃ n : Int64, n.toInt = x ∧ v = int n := by
  simp only [Option.map_eq_some_iff, checked_iff]
  constructor
  · rintro ⟨n, hn, rfl⟩
    exact ⟨n, hn, rfl⟩
  · rintro ⟨n, hn, rfl⟩
    exact ⟨n, hn, rfl⟩

/-- A word is zero if its number is. -/
theorem eq_zero_iff (b : Int64) : b = 0 ↔ b.toInt = 0 := by
  rw [← Int64.toInt_inj, Int64.toInt_zero]

/-- Words are compared as numbers. -/
theorem beq_eq_toInt (a b : Int64) : (a == b) = decide (a.toInt = b.toInt) := by
  rw [Bool.eq_iff_iff, beq_iff_eq, decide_eq_true_iff, Int64.toInt_inj]

/-- Words differ where their numbers do. -/
theorem bne_eq_toInt (a b : Int64) : (a != b) = decide (a.toInt ≠ b.toInt) := by
  rw [bne, beq_eq_toInt, decide_not]

/-- A count of bits is not negative and less than 64. -/
theorem isShiftCount_iff (b : Int64) : isShiftCount b = true ↔ 0 ≤ b.toInt ∧ b.toInt < 64 := by
  simp [isShiftCount, Int64.lt_iff_toInt_lt, Int64.le_iff_toInt_le]

/-- A word that is a count of bits is taken as it is by a shift. -/
theorem shiftCount_toNat {b : Int64} (hpos : 0 ≤ b.toInt) (hlt : b.toInt < 64) :
    (b.toBitVec.smod 64).toNat = b.toInt.toNat := by
  have hmod : b.toBitVec.smod 64 = b.toBitVec := by
    apply BitVec.eq_of_toInt_eq
    rw [BitVec.toInt_smod]
    exact Int.fmod_eq_of_lt hpos hlt
  rw [hmod]
  have hmsb : b.toBitVec.msb = false := by
    rw [BitVec.msb_eq_toInt]
    simpa using hpos
  show b.toBitVec.toNat = b.toBitVec.toInt.toNat
  rw [BitVec.toInt_eq_msb_cond, hmsb]
  simp

/-- A shift has the value `x` where its count is one. -/
theorem shift_iff {b n x : Int64} : (if isShiftCount b then some x else none) = some n ↔
    0 ≤ b.toInt ∧ b.toInt < 64 ∧ n.toBitVec = x.toBitVec := by
  rw [Int64.toBitVec_inj, ← and_assoc, ← isShiftCount_iff]
  by_cases hcount : isShiftCount b = true
  · simp [hcount, eq_comm]
  · simp [hcount]

/-- A left shift moves the bits of a word by a count. -/
theorem shiftLeft_iff {a b n : Int64} : shiftLeft a b = some n ↔
    0 ≤ b.toInt ∧ b.toInt < 64 ∧ n.toBitVec = a.toBitVec <<< b.toInt.toNat := by
  refine shift_iff.trans (and_congr_right fun hpos => and_congr_right fun hlt => ?_)
  rw [Int64.toBitVec_shiftLeft, BitVec.shiftLeft_eq', shiftCount_toNat hpos hlt]

/-- A right shift keeps the sign of a word. -/
theorem shiftRight_iff {a b n : Int64} : shiftRight a b = some n ↔
    0 ≤ b.toInt ∧ b.toInt < 64 ∧ n.toBitVec = a.toBitVec.sshiftRight b.toInt.toNat := by
  refine shift_iff.trans (and_congr_right fun hpos => and_congr_right fun hlt => ?_)
  rw [Int64.toBitVec_shiftRight, BitVec.sshiftRight', shiftCount_toNat hpos hlt]

/-- A quotient rounds towards zero, and there is none by zero or where no word has it. -/
theorem quotient_iff {a b n : Int64} : quotient a b = some n ↔
    b.toInt ≠ 0 ∧ n.toInt = a.toInt.tdiv b.toInt := by
  unfold quotient
  by_cases hzero : b = 0
  · simp [hzero]
  · have hne := mt (eq_zero_iff b).2 hzero
    rw [if_neg hzero, checked_iff]
    exact ⟨fun h => ⟨hne, h⟩, fun h => h.2⟩

/-- A remainder has the sign of the dividend, and there is one only where there is a quotient.
-/
theorem remainder_iff {a b n : Int64} : remainder a b = some n ↔
    ∃ q : Int64, b.toInt ≠ 0 ∧ q.toInt = a.toInt.tdiv b.toInt ∧
      n.toInt = a.toInt.tmod b.toInt := by
  unfold remainder
  constructor
  · intro h
    obtain ⟨q, hq, hn⟩ := Option.bind_eq_some_iff.1 h
    obtain ⟨hne, hq⟩ := quotient_iff.1 hq
    exact ⟨q, hne, hq, checked_iff.1 hn⟩
  · rintro ⟨q, hne, hq, hn⟩
    exact Option.bind_eq_some_iff.2 ⟨q, quotient_iff.2 ⟨hne, hq⟩, checked_iff.2 hn⟩

/-! ## The evaluation -/

/-- The evaluation computes the values of the operators before an operand, and no others. -/
theorem unary_iff {k : Kind} {a v : Constant} : unary k a = some v ↔ UnaryValue k a v := by
  constructor
  · intro h
    unfold unary at h
    split at h
    · obtain ⟨n, hn, rfl⟩ := map_checked_iff.1 h
      exact .minus hn
    · obtain rfl := Option.some.inj h
      exact .plus
    · obtain rfl := Option.some.inj h
      exact .tilde Int64.toBitVec_not
    · obtain rfl := Option.some.inj h
      exact .bang
    · exact absurd h (by simp)
  · intro h
    cases h with
    | minus hn => exact map_checked_iff.2 ⟨_, hn, rfl⟩
    | plus => rfl
    | tilde hn =>
        obtain rfl := Int64.toBitVec_inj.1 (hn.trans Int64.toBitVec_not.symm)
        rfl
    | bang => rfl

/-- The evaluation computes the values of the operators between integers, and no others: one
case for each operator. -/
theorem binaryInt_iff {k : Kind} {a b : Int64} {v : Constant} :
    binaryInt k a b = some v ↔ IntValue a b k v := by
  constructor
  · intro h
    unfold binaryInt at h
    split at h
    -- arithmetic that is checked, then bits, then comparisons, as the operators stand in the definition
    · obtain ⟨n, hn, rfl⟩ := map_checked_iff.1 h
      exact .plus hn
    · obtain ⟨n, hn, rfl⟩ := map_checked_iff.1 h
      exact .minus hn
    · obtain ⟨n, hn, rfl⟩ := map_checked_iff.1 h
      exact .star hn
    · obtain ⟨n, hn, rfl⟩ := Option.map_eq_some_iff.1 h
      obtain ⟨hne, hn⟩ := quotient_iff.1 hn
      exact .slash hne hn
    · obtain ⟨n, hn, rfl⟩ := Option.map_eq_some_iff.1 h
      obtain ⟨q, hne, hq, hn⟩ := remainder_iff.1 hn
      exact .percent hne hq hn
    · obtain ⟨n, hn, rfl⟩ := Option.map_eq_some_iff.1 h
      obtain ⟨hpos, hlt, hn⟩ := shiftLeft_iff.1 hn
      exact .ltLt hpos hlt hn
    · obtain rfl := Option.some.inj h
      exact .amp (Int64.toBitVec_and a b)
    · obtain rfl := Option.some.inj h
      exact .pipe (Int64.toBitVec_or a b)
    · obtain rfl := Option.some.inj h
      exact .caret (Int64.toBitVec_xor a b)
    all_goals
      first
      | obtain rfl := Option.some.inj h
      | exact absurd h (by simp)
    · rw [beq_eq_toInt]
      exact .eqEq
    · rw [bne_eq_toInt]
      exact .bangEq
    · simp only [Int64.lt_iff_toInt_lt]
      exact .lt
    · simp only [Int64.lt_iff_toInt_lt]
      exact .gt
    · simp only [Int64.le_iff_toInt_le]
      exact .ltEq
    · simp only [Int64.le_iff_toInt_le]
      exact .gtEq
  · intro h
    cases h with
    | plus hn => exact map_checked_iff.2 ⟨_, hn, rfl⟩
    | minus hn => exact map_checked_iff.2 ⟨_, hn, rfl⟩
    | star hn => exact map_checked_iff.2 ⟨_, hn, rfl⟩
    | slash hne hn => exact Option.map_eq_some_iff.2 ⟨_, quotient_iff.2 ⟨hne, hn⟩, rfl⟩
    | percent hne hq hn =>
        exact Option.map_eq_some_iff.2 ⟨_, remainder_iff.2 ⟨_, hne, hq, hn⟩, rfl⟩
    | ltLt hpos hlt hn =>
        exact Option.map_eq_some_iff.2 ⟨_, shiftLeft_iff.2 ⟨hpos, hlt, hn⟩, rfl⟩
    | amp hn =>
        obtain rfl := Int64.toBitVec_inj.1 (hn.trans (Int64.toBitVec_and a b).symm)
        rfl
    | pipe hn =>
        obtain rfl := Int64.toBitVec_inj.1 (hn.trans (Int64.toBitVec_or a b).symm)
        rfl
    | caret hn =>
        obtain rfl := Int64.toBitVec_inj.1 (hn.trans (Int64.toBitVec_xor a b).symm)
        rfl
    | eqEq => simp only [binaryInt, beq_eq_toInt]
    | bangEq => simp only [binaryInt, bne_eq_toInt]
    | lt => simp [binaryInt, Int64.lt_iff_toInt_lt]
    | gt => simp [binaryInt, Int64.lt_iff_toInt_lt]
    | ltEq => simp [binaryInt, Int64.le_iff_toInt_le]
    | gtEq => simp [binaryInt, Int64.le_iff_toInt_le]

/-- The evaluation computes the values of the operators between operands of one type, and no
others. -/
theorem binary_iff {k : Kind} {a b v : Constant} :
    binary k a b = some v ↔ BinaryValue k a b v := by
  constructor
  · intro h
    unfold binary at h
    split at h
    · exact .ints (binaryInt_iff.1 h)
    · unfold binaryBool at h
      split at h <;> first | obtain rfl := Option.some.inj h | exact absurd h (by simp)
      · exact .both (Or.inl rfl)
      · exact .both (Or.inr rfl)
      · exact .some (Or.inl rfl)
      · exact .some (Or.inr rfl)
      · exact .apart (Or.inl rfl)
      · exact .apart (Or.inr rfl)
      · exact .alike
    · unfold binaryString at h
      split at h <;> first | obtain rfl := Option.some.inj h | exact absurd h (by simp)
      · exact .joined
      · exact .equal
      · exact .different
    · exact absurd h (by simp)
  · intro h
    cases h with
    | ints h => exact binaryInt_iff.2 h
    | both hk => rcases hk with rfl | rfl <;> rfl
    | some hk => rcases hk with rfl | rfl <;> rfl
    | apart hk => rcases hk with rfl | rfl <;> rfl
    | alike => rfl
    | joined => rfl
    | equal => rfl
    | different => rfl

/-- The evaluation computes the values of right shifts, which are two tokens, and no others. -/
theorem rightShift_iff {a b v : Constant} : rightShift a b = some v ↔ ShiftValue a b v := by
  constructor
  · intro h
    unfold rightShift at h
    split at h
    · obtain ⟨n, hn, rfl⟩ := Option.map_eq_some_iff.1 h
      obtain ⟨hpos, hlt, hn⟩ := shiftRight_iff.1 hn
      exact .ints hpos hlt hn
    · exact absurd h (by simp)
  · intro h
    cases h with
    | ints hpos hlt hn =>
        exact Option.map_eq_some_iff.2 ⟨_, shiftRight_iff.2 ⟨hpos, hlt, hn⟩, rfl⟩

end CodeMend.Constant

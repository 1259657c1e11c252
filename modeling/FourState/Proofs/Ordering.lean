import FourState.Proofs.Arithmetic
import FourState.Proofs.Extension

/-!
# The order of integers

Two operands are compared at the wider of their widths: opposite signs decide, and
otherwise the words do, most significant first.  This is the order of the integers
that the operands stand for, as extending an operand keeps its integer.  An unknown
bit anywhere in an operand leaves the relation open.
-/

namespace FourState

/-! ## Numbers -/

namespace Words

/-- A lowest word makes up less than one unit of the words above it. -/
theorem value_cons_lt
    (left right : Word)
    {lefts rights : List Word}
    (below : value lefts < value rights) :
    value (left :: lefts) < value (right :: rights) := by
  have leftFits := toNat_lt_modulus left
  calc value (left :: lefts)
      = left.toNat + modulus 32 * value lefts := rfl
    _ < modulus 32 * (value lefts + 1) := by rw [Nat.mul_succ]; omega
    _ ≤ modulus 32 * value rights := Nat.mul_le_mul_left _ below
    _ ≤ value (right :: rights) := Nat.le_add_left _ _

/-- The most significant words in which two numbers differ decide which is smaller. -/
theorem order_eq_compare
    {lefts rights : List Word}
    (sameLength : lefts.length = rights.length) :
    order lefts rights = compare (value lefts) (value rights) := by
  induction lefts generalizing rights with
  | nil =>
      cases rights with
      | nil => rfl
      | cons right rights => contradiction
  | cons left lefts inductionHypothesis =>
      cases rights with
      | nil => contradiction
      | cons right rights =>
          rw [order, inductionHypothesis (Nat.succ.inj sameLength)]
          rcases Nat.lt_trichotomy (value lefts) (value rights) with below | same | above
          · rw [Nat.compare_eq_lt.2 below, Nat.compare_eq_lt.2 (value_cons_lt left right below)]
            rfl
          · rw [value, value, same, Nat.compare_eq_eq.2 rfl]
            simp only [compare, compareOfLessAndEq, Nat.add_lt_add_iff_right,
              Nat.add_right_cancel_iff, Ordering.then]
          · rw [Nat.compare_eq_gt.2 above, Nat.compare_eq_gt.2 (value_cons_lt right left above)]
            rfl

end Words

/-- Numbers that are in one order and are equal together compare alike. -/
theorem compare_natCast_of_iff
    {first second : Nat}
    {left right : Int}
    (less_iff : first < second ↔ left < right)
    (equal_iff : first = second ↔ left = right) :
    compare first second = compare left right := by
  simp only [compare, compareOfLessAndEq, less_iff, equal_iff]

/-! ## Integers -/

section

variable {width wide : Nat} {word first second : BitVec width} {left right : Buffer}

/-- Extending a bit vector keeps its integer. -/
theorem BitWord.integer_ofInt_integer
    (word : BitVec width)
    (fits : width ≤ wide)
    (signed : Bool) :
    BitWord.integer (BitVec.ofInt wide (BitWord.integer word signed)) signed =
      BitWord.integer word signed := by
  cases signed with
  | false =>
      change ((BitVec.ofInt wide (word.toNat : Int)).toNat : Int) = word.toNat
      rw [BitVec.ofInt_natCast, BitVec.ofNat_toNat, BitVec.toNat_setWidth_of_le fits]
  | true =>
      change (word.signExtend wide).toInt = word.toInt
      exact BitVec.toInt_signExtend_of_le fits

/-- Buffers of one width are in the order of the integers they hold. -/
theorem Buffer.Holds.order_eq
    (holds : left.Holds first)
    (otherHolds : right.Holds second)
    (signed : Bool) :
    left.order right signed =
      compare (BitWord.integer first signed) (BitWord.integer second signed) := by
  have sameLength : left.low.toList.length = right.low.toList.length := by
    rw [Array.length_toList, Array.length_toList, holds.canonical.size_low,
      otherHolds.canonical.size_low, holds.width_eq, otherHolds.width_eq]
  have magnitudes : Words.order left.low.toList right.low.toList =
      compare first.toNat second.toNat := by
    rw [Words.order_eq_compare sameLength, ← holds.toNat_eq, ← otherHolds.toNat_eq]
    rfl
  have firstFits := first.isLt
  have secondFits := second.isLt
  unfold order
  rw [magnitudes, holds.msb_eq, otherHolds.msb_eq]
  cases signed with
  | false => exact compare_natCast_of_iff Int.ofNat_lt.symm Int.ofNat_inj.symm
  | true =>
      change _ = compare first.toInt second.toInt
      rw [BitVec.toInt_eq_msb_cond, BitVec.toInt_eq_msb_cond]
      -- Numbers of one sign keep their order when the same power of two is taken from both.
      cases first.msb with
      | false =>
          cases second.msb with
          | false => exact compare_natCast_of_iff Int.ofNat_lt.symm Int.ofNat_inj.symm
          | true =>
              have negative : (second.toNat : Int) - (2 ^ width : Nat) < first.toNat := by omega
              exact (Int.compare_eq_gt.2 negative).symm
      | true =>
          cases second.msb with
          | false =>
              have negative : (first.toNat : Int) - (2 ^ width : Nat) < second.toNat := by omega
              exact (Int.compare_eq_lt.2 negative).symm
          | true =>
              apply compare_natCast_of_iff
              · simp
              · simp

end

/-- The relation holds between two integers. -/
def Relation.OfInts : Relation → Int → Int → Prop
  | less, first, second => first < second
  | lessEqual, first, second => first ≤ second
  | greater, first, second => second < first
  | greaterEqual, first, second => second ≤ first
  | equal, first, second => first = second
  | notEqual, first, second => first ≠ second

instance (relation : Relation) (first second : Int) : Decidable (relation.OfInts first second) :=
  match relation with
  | .less => inferInstanceAs (Decidable (first < second))
  | .lessEqual => inferInstanceAs (Decidable (first ≤ second))
  | .greater => inferInstanceAs (Decidable (second < first))
  | .greaterEqual => inferInstanceAs (Decidable (second ≤ first))
  | .equal => inferInstanceAs (Decidable (first = second))
  | .notEqual => inferInstanceAs (Decidable (first ≠ second))

theorem Relation.holds_compare_iff (relation : Relation) (first second : Int) :
    relation.holds (compare first second) = true ↔ relation.OfInts first second := by
  cases relation with
  | less => exact Ordering.isLT_iff_eq_lt.trans Int.compare_eq_lt
  | lessEqual => exact Int.isLE_compare
  | greater => exact Ordering.isGT_iff_eq_gt.trans Int.compare_eq_gt
  | greaterEqual => exact Int.isGE_compare
  | equal => exact Ordering.isEq_iff_eq_eq.trans Int.compare_eq_eq
  | notEqual => exact Ordering.isNe_iff_ne_eq.trans (not_congr Int.compare_eq_eq)

/-! ## Operands -/

/-- The bit answers whether the relation holds of two vectors: it is `x` exactly if
one of them has an unknown bit, and else tells whether their integers are related. -/
structure Relation.Tells (relation : Relation) (left right : LogicVector) (answer : Bit) :
    Prop where
  eq_x_iff : answer = Bit.x ↔ left.UnknownBelow left.width ∨ right.UnknownBelow right.width
  known : ¬(left.UnknownBelow left.width ∨ right.UnknownBelow right.width) →
    answer = Bit.ofBool (decide (relation.OfInts (left.integer (bothSigned left right))
      (right.integer (bothSigned left right))))

/-- A vector has no bits past its width. -/
theorem LogicVector.unknownBelow_iff_of_width_le
    {vector : LogicVector}
    {limit : Nat}
    (covers : vector.width ≤ limit) :
    vector.UnknownBelow limit ↔ vector.UnknownBelow vector.width := by
  constructor
  · rintro ⟨position, bit, -, shows, unknown⟩
    exact ⟨position, bit, lt_width_of_bit? shows, shows, unknown⟩
  · rintro ⟨position, bit, inside, shows, unknown⟩
    exact ⟨position, bit, Nat.lt_of_lt_of_le inside covers, shows, unknown⟩

/-- Known operands are in the order of their integers at every width that holds both. -/
theorem LogicVector.order_operands
    {left right : LogicVector}
    {first second : Buffer}
    {common : Nat}
    {signed : Bool}
    (leftReadable : left.Readable)
    (rightReadable : right.Readable)
    (leftKnown : left.IsKnown)
    (rightKnown : right.IsKnown)
    (leftFits : left.width ≤ common)
    (rightFits : right.width ≤ common)
    (readsFirst : left.operand common signed = .ok first)
    (readsSecond : right.operand common signed = .ok second) :
    first.order second signed = compare (left.integer signed) (right.integer signed) := by
  obtain ⟨_, readsLeft, firstHolds⟩ := leftReadable.holds_operand leftKnown common signed
  obtain ⟨_, readsRight, secondHolds⟩ := rightReadable.holds_operand rightKnown common signed
  cases readsFirst.symm.trans readsLeft
  cases readsSecond.symm.trans readsRight
  rw [firstHolds.order_eq secondHolds, integer, integer,
    BitWord.integer_ofInt_integer _ leftFits, BitWord.integer_ofInt_integer _ rightFits]

/-- Comparing readable operands succeeds, and the answer tells whether the relation
holds. -/
theorem Operator.exists_compare
    (relation : Relation)
    (width : Nat)
    {left right : LogicVector}
    (leftReadable : left.Readable)
    (rightReadable : right.Readable) :
    ∃ answer, compare relation width left right = .ok (Buffer.ofBit width answer) ∧
      relation.Tells left right answer := by
  obtain ⟨first, readsFirst, -⟩ :=
    leftReadable.operand (max left.width right.width) (bothSigned left right)
  obtain ⟨second, readsSecond, -⟩ :=
    rightReadable.operand (max left.width right.width) (bothSigned left right)
  have computes : compare relation width left right = .ok (Buffer.ofBit width
      (if first.hasUnknown || second.hasUnknown then Bit.x
        else Bit.ofBool (relation.holds (first.order second (bothSigned left right))))) := by
    rw [compare, readsFirst, readsSecond]
    rfl
  have unknown_iff : (first.hasUnknown || second.hasUnknown) = true ↔
      left.UnknownBelow left.width ∨ right.UnknownBelow right.width := by
    rw [Bool.or_eq_true, LogicVector.hasUnknown_operand_iff leftReadable readsFirst,
      LogicVector.hasUnknown_operand_iff rightReadable readsSecond,
      LogicVector.unknownBelow_iff_of_width_le (Nat.le_max_left _ _),
      LogicVector.unknownBelow_iff_of_width_le (Nat.le_max_right _ _)]
  refine ⟨_, computes, ?_⟩
  by_cases unknown : (first.hasUnknown || second.hasUnknown) = true
  · rw [if_pos unknown]
    exact ⟨iff_of_true rfl (unknown_iff.1 unknown),
      fun noUnknown => absurd (unknown_iff.1 unknown) noUnknown⟩
  · rw [if_neg unknown]
    have noUnknown := mt unknown_iff.2 unknown
    have notOpen (outcome : Bool) : Bit.ofBool outcome ≠ Bit.x := by cases outcome <;> decide
    refine ⟨iff_of_false (notOpen _) noUnknown, fun _ => ?_⟩
    rw [not_or, ← leftReadable.isKnown_iff, ← rightReadable.isKnown_iff] at noUnknown
    rw [LogicVector.order_operands leftReadable rightReadable noUnknown.1 noUnknown.2
      (Nat.le_max_left _ _) (Nat.le_max_right _ _) readsFirst readsSecond]
    congr 1
    rw [Bool.eq_iff_iff, decide_eq_true_iff]
    exact relation.holds_compare_iff _ _

end FourState

import FourState.Proofs.Abstraction
import FourState.Proofs.Extension

/-!
# Matching bit by bit

The case operators look at two vectors position by position, after zeros have been
put above the narrower one.  A match holds if the bits agree at every position, where
an operator may let some bits agree with any other.  It always has a known answer.
-/

namespace FourState

/-- The words of a canonical buffer hold its bits, and zeros past its width. -/
theorem Buffer.Canonical.wordBit_word
    {buffer : Buffer}
    (canonical : buffer.Canonical)
    (position : Nat) :
    wordBit (buffer.word (position / 32)) (position % 32) = buffer.bit position := by
  change Bit.ofPlanes (Words.bit buffer.low position) (Words.bit buffer.high position) = _
  rw [canonical.low_eq, canonical.high_eq, Bit.ofPlanes_low_high]

namespace CaseMatch

/-! ## Two bits -/

/-- Two bits agree as far as the operator looks at them. -/
def Agrees : CaseMatch → Bit → Bit → Prop
  | same, left, right => left = right
  | different, left, right => left = right
  | ignoreUnknown, left, right => left = right ∨ left.isKnown = false ∨ right.isKnown = false
  | ignoreHighZ, left, right => left = right ∨ left = Bit.z ∨ right = Bit.z

instance (operator : CaseMatch) (left right : Bit) : Decidable (operator.Agrees left right) :=
  match operator with
  | same => inferInstanceAs (Decidable (left = right))
  | different => inferInstanceAs (Decidable (left = right))
  | ignoreUnknown =>
      inferInstanceAs (Decidable (left = right ∨ left.isKnown = false ∨ right.isKnown = false))
  | ignoreHighZ => inferInstanceAs (Decidable (left = right ∨ left = Bit.z ∨ right = Bit.z))

theorem agrees_refl (operator : CaseMatch) (bit : Bit) : operator.Agrees bit bit := by
  cases operator <;> cases bit <;> decide

theorem Agrees.symm
    {operator : CaseMatch}
    {left right : Bit}
    (agrees : operator.Agrees left right) :
    operator.Agrees right left := by
  revert agrees
  cases operator <;> cases left <;> cases right <;> decide

theorem Agrees.ignoreHighZ
    {left right : Bit}
    (agrees : same.Agrees left right) :
    CaseMatch.ignoreHighZ.Agrees left right :=
  Or.inl agrees

theorem Agrees.ignoreUnknown
    {left right : Bit}
    (agrees : CaseMatch.ignoreHighZ.Agrees left right) :
    CaseMatch.ignoreUnknown.Agrees left right := by
  revert agrees
  cases left <;> cases right <;> decide

/-- An offset is a mismatch of two words unless their bits agree there. -/
theorem getLsbD_mismatches_eq_false_iff
    (operator : CaseMatch)
    (left right : Word × Word)
    {offset : Nat}
    (inWord : offset < 32) :
    (operator.mismatches left right).getLsbD offset = false ↔
      operator.Agrees (wordBit left offset) (wordBit right offset) := by
  unfold wordBit mismatches
  cases operator with
  | same | different | ignoreUnknown | ignoreHighZ =>
      simp only [wildcards, BitVec.getLsbD_and, BitVec.getLsbD_or, BitVec.getLsbD_xor,
        BitVec.getLsbD_not, BitVec.ofNat_eq_ofNat, BitVec.getLsbD_zero, inWord, decide_true,
        Bool.true_and]
      generalize left.1.getLsbD offset = leftLow
      generalize left.2.getLsbD offset = leftHigh
      generalize right.1.getLsbD offset = rightLow
      generalize right.2.getLsbD offset = rightHigh
      revert leftLow leftHigh rightLow rightHigh
      decide

/-- Two words have no mismatch if all their bits agree. -/
theorem mismatches_eq_zero_iff (operator : CaseMatch) (left right : Word × Word) :
    operator.mismatches left right = 0 ↔
      ∀ offset, offset < 32 → operator.Agrees (wordBit left offset) (wordBit right offset) := by
  rw [BitVec.eq_of_getLsbD_eq_iff]
  refine forall₂_congr fun offset inWord => ?_
  rw [← getLsbD_mismatches_eq_false_iff _ _ _ inWord]
  simp

/-- Two buffers have no mismatch in any of their words if all their bits agree. -/
theorem all_mismatches_eq_true_iff
    (operator : CaseMatch)
    {left right : Buffer}
    (leftCanonical : left.Canonical)
    (rightCanonical : right.Canonical)
    {width : Nat}
    (leftWidth : left.width = width)
    (rightWidth : right.width = width) :
    ((List.range (wordCount width)).all fun index =>
        decide (operator.mismatches (left.word index) (right.word index) = 0)) = true ↔
      ∀ position, position < width → operator.Agrees (left.bit position) (right.bit position) := by
  simp only [List.all_eq_true, List.mem_range, decide_eq_true_iff, mismatches_eq_zero_iff]
  constructor
  · intro agree position inside
    rw [← leftCanonical.wordBit_word, ← rightCanonical.wordBit_word]
    exact agree _ (div_lt_wordCount inside) _ (Nat.mod_lt _ (by decide))
  · intro agree index _ offset inWord
    have sameWord : (32 * index + offset) / 32 = index := by omega
    have sameOffset : (32 * index + offset) % 32 = offset := by omega
    have leftBit := leftCanonical.wordBit_word (32 * index + offset)
    have rightBit := rightCanonical.wordBit_word (32 * index + offset)
    rw [sameWord, sameOffset] at leftBit rightBit
    rw [leftBit, rightBit]
    by_cases inside : 32 * index + offset < width
    · exact agree _ inside
    · -- Past the width, the last words hold zeros on either side.
      rw [left.bit_of_width_le (by omega), right.bit_of_width_le (by omega)]
      exact operator.agrees_refl _

/-! ## Two vectors -/

/-- The bits of two vectors agree, with zeros above the narrower one. -/
def AgreesThroughout (operator : CaseMatch) (left right : LogicVector) : Prop :=
  ∀ position, position < max left.width right.width →
    operator.Agrees (left.extended false position) (right.extended false position)

instance (operator : CaseMatch) (left right : LogicVector) :
    Decidable (operator.AgreesThroughout left right) :=
  inferInstanceAs (Decidable (∀ position, position < _ → _))

/-- The match holds of two vectors. -/
def Holds : CaseMatch → LogicVector → LogicVector → Prop
  | same, left, right => same.AgreesThroughout left right
  | different, left, right => ¬same.AgreesThroughout left right
  | ignoreUnknown, left, right => ignoreUnknown.AgreesThroughout left right
  | ignoreHighZ, left, right => ignoreHighZ.AgreesThroughout left right

instance (operator : CaseMatch) (left right : LogicVector) :
    Decidable (operator.Holds left right) :=
  match operator with
  | same => inferInstanceAs (Decidable (same.AgreesThroughout left right))
  | different => inferInstanceAs (Decidable (¬same.AgreesThroughout left right))
  | ignoreUnknown => inferInstanceAs (Decidable (ignoreUnknown.AgreesThroughout left right))
  | ignoreHighZ => inferInstanceAs (Decidable (ignoreHighZ.AgreesThroughout left right))

section

variable {operator : CaseMatch} {first second third : LogicVector}

/-- Past both widths there are zeros, which agree. -/
theorem agreesThroughout_iff :
    operator.AgreesThroughout first second ↔
      ∀ position, operator.Agrees (first.extended false position)
        (second.extended false position) := by
  constructor
  · intro agree position
    by_cases inside : position < max first.width second.width
    · exact agree position inside
    · rw [first.extended_false_of_width_le (by omega), second.extended_false_of_width_le (by omega)]
      exact operator.agrees_refl _
  · intro agree position _
    exact agree position

/-! ## Laws of matching -/

theorem holds_refl
    (notDifferent : operator ≠ different)
    (vector : LogicVector) :
    operator.Holds vector vector := by
  have agree : operator.AgreesThroughout vector vector := fun _ _ => operator.agrees_refl _
  cases operator with
  | different => contradiction
  | same | ignoreUnknown | ignoreHighZ => exact agree

theorem Holds.symm (holds : operator.Holds first second) : operator.Holds second first := by
  have symmetric {operator : CaseMatch} {first second : LogicVector}
      (agree : operator.AgreesThroughout first second) :
      operator.AgreesThroughout second first :=
    agreesThroughout_iff.2 fun position => (agreesThroughout_iff.1 agree position).symm
  cases operator with
  | different => exact mt symmetric holds
  | same | ignoreUnknown | ignoreHighZ => exact symmetric holds

/-- The widths need not be the same, as zeros count like bits. -/
theorem Holds.trans_same
    (holds : same.Holds first second)
    (otherHolds : same.Holds second third) :
    same.Holds first third :=
  agreesThroughout_iff.2 fun position =>
    (agreesThroughout_iff.1 holds position).trans (agreesThroughout_iff.1 otherHolds position)

theorem Holds.ignoreHighZ (holds : same.Holds first second) :
    CaseMatch.ignoreHighZ.Holds first second :=
  fun position inside => (holds position inside).ignoreHighZ

theorem Holds.ignoreUnknown (holds : CaseMatch.ignoreHighZ.Holds first second) :
    CaseMatch.ignoreUnknown.Holds first second :=
  fun position inside => (holds position inside).ignoreUnknown

end

end CaseMatch

/-- Matching readable operands succeeds, and answers whether the match holds. -/
theorem Operator.caseCompare_eq_ok
    (operator : CaseMatch)
    (width : Nat)
    {left right : LogicVector}
    (leftReadable : left.Readable)
    (rightReadable : right.Readable) :
    caseCompare operator width left right =
      .ok (Buffer.ofBit width (Bit.ofBool (decide (operator.Holds left right)))) := by
  obtain ⟨first, readsFirst, firstCanonical, firstWidth, firstBits⟩ :=
    leftReadable.bit_operand (max left.width right.width) false
  obtain ⟨second, readsSecond, secondCanonical, secondWidth, secondBits⟩ :=
    rightReadable.bit_operand (max left.width right.width) false
  have matching : ((List.range (wordCount (max left.width right.width))).all fun index =>
      decide (operator.mismatches (first.word index) (second.word index) = 0)) =
      decide (operator.AgreesThroughout left right) := by
    rw [Bool.eq_iff_iff, decide_eq_true_iff, operator.all_mismatches_eq_true_iff firstCanonical
      secondCanonical firstWidth secondWidth]
    refine forall₂_congr fun position inside => ?_
    rw [firstBits position inside, secondBits position inside]
  have computes : caseCompare operator width left right = .ok (Buffer.ofBit width (Bit.ofBool
      (decide (operator.AgreesThroughout left right) != decide (operator = .different)))) := by
    rw [← matching, caseCompare, readsFirst, readsSecond]
    rfl
  rw [computes]
  congr 3
  cases operator with
  | different => exact (Bool.bne_true _).trans decide_not.symm
  | same | ignoreUnknown | ignoreHighZ => exact Bool.bne_false _

end FourState

import FourState.Proofs.Assigning
import FourState.Proofs.Completion
import FourState.Proofs.Folding

/-!
# Operators as abstractions

The operators that work bit by bit, fold a value into one bit or combine
conditions are four-state versions of Boolean functions.  Each result bit is the
known Boolean that the function gives for every completion of the operands, and
`x` where completions disagree.
-/

namespace FourState

/-! ## Bit by bit -/

/-- The bit that a low and a high word hold at an offset. -/
def wordBit (word : Word × Word) (offset : Nat) : Bit :=
  Bit.ofPlanes (word.1.getLsbD offset) (word.2.getLsbD offset)

/-- The words of a buffer hold its bits. -/
theorem Buffer.wordBit_word
    (buffer : Buffer)
    {position : Nat}
    (inside : position < buffer.width) :
    wordBit (buffer.word (position / 32)) (position % 32) = buffer.bit position :=
  (buffer.bit_of_lt inside).symm

/-- A result bit stands for just the Booleans that the function gives for those
the operand bits stand for. -/
theorem BitFunction.wordBit_apply
    (function : BitFunction)
    (left right : Word × Word)
    {offset : Nat}
    (inWord : offset < 32) :
    wordBit (function.apply left right) offset ≠ Bit.z ∧
      ∀ value, (wordBit (function.apply left right) offset).Admits value ↔
        ∃ leftValue rightValue, (wordBit left offset).Admits leftValue ∧
          (wordBit right offset).Admits rightValue ∧
          function.ofBools leftValue rightValue = value := by
  unfold wordBit
  cases function with
  | and | nand | or | nor | xor | nxor =>
      simp only [apply, known, BitVec.getLsbD_and, BitVec.getLsbD_or, BitVec.getLsbD_xor,
        BitVec.getLsbD_not, inWord, decide_true, Bool.true_and]
      generalize left.1.getLsbD offset = leftLow
      generalize left.2.getLsbD offset = leftHigh
      generalize right.1.getLsbD offset = rightLow
      generalize right.2.getLsbD offset = rightHigh
      revert leftLow leftHigh rightLow rightHigh
      decide

/-- An inverted word holds the inverted bits. -/
theorem wordBit_invert (word : Word × Word) {offset : Nat} (inWord : offset < 32) :
    wordBit (~~~word.1 &&& ~~~word.2, word.2) offset = (wordBit word offset).invert := by
  simp only [wordBit, BitVec.getLsbD_and, BitVec.getLsbD_not, inWord, decide_true, Bool.true_and]
  cases word.1.getLsbD offset <;> cases word.2.getLsbD offset <;> rfl

namespace Operator

/-- A bitwise result is computed for all readable operands, and is exact in every
bit. -/
theorem bitwise_decides
    (function : BitFunction)
    (width : Nat)
    {left right : LogicVector}
    (leftReadable : left.Readable)
    (rightReadable : right.Readable) :
    ∃ value, bitwise function width left right = .ok value ∧ value.Canonical ∧
      value.width = width ∧
      ∀ position, position < width → (value.bit position).Decides
        (fun bits : (Nat → Bool) × (Nat → Bool) => left.Admits bits.1 ∧ right.Admits bits.2)
        (fun bits => function.ofBools (extendBools left.width false bits.1 position)
          (extendBools right.width false bits.2 position)) := by
  obtain ⟨leftValue, readsLeft, -, leftWide, leftAdmits⟩ := leftReadable.operand width false
  obtain ⟨rightValue, readsRight, -, rightWide, rightAdmits⟩ := rightReadable.operand width false
  have computes : bitwise function width left right = .ok (Buffer.tabulate width fun index =>
      function.apply (leftValue.word index) (rightValue.word index)) := by
    rw [bitwise, readsLeft, readsRight]
    rfl
  refine ⟨_, computes, Buffer.canonical_tabulate _ _, rfl, ?_⟩
  intro position inside
  have inWord : position % 32 < 32 := Nat.mod_lt _ (by decide)
  have ⟨notHighZ, admits⟩ := function.wordBit_apply (leftValue.word (position / 32))
    (rightValue.word (position / 32)) inWord
  rw [leftValue.wordBit_word (by rwa [leftWide]),
    rightValue.wordBit_word (by rwa [rightWide])] at admits
  rw [Buffer.bit_tabulate, if_pos inside]
  apply Bit.decides_of_admits notHighZ
  intro value
  refine (admits value).trans ⟨?_, ?_⟩
  · rintro ⟨leftBool, rightBool, isLeft, isRight, rfl⟩
    obtain ⟨leftBits, admitsLeft, rfl⟩ := (leftAdmits position inside _).1 isLeft
    obtain ⟨rightBits, admitsRight, rfl⟩ := (rightAdmits position inside _).1 isRight
    exact ⟨(leftBits, rightBits), ⟨admitsLeft, admitsRight⟩, rfl⟩
  · rintro ⟨⟨leftBits, rightBits⟩, ⟨admitsLeft, admitsRight⟩, rfl⟩
    exact ⟨_, _, (leftAdmits position inside _).2 ⟨leftBits, admitsLeft, rfl⟩,
      (rightAdmits position inside _).2 ⟨rightBits, admitsRight, rfl⟩, rfl⟩

/-- An inverted value is computed for every readable operand, and is exact in
every bit. -/
theorem invert_decides
    (width : Nat)
    {source : LogicVector}
    (readable : source.Readable) :
    ∃ value, invert width source = .ok value ∧ value.Canonical ∧ value.width = width ∧
      ∀ position, position < width → (value.bit position).Decides source.Admits
        (fun bits => !extendBools source.width source.signed bits position) := by
  obtain ⟨operand, reads, -, wide, admits⟩ := readable.operand width source.signed
  have computes : invert width source = .ok (Buffer.tabulate width fun index =>
      (~~~(operand.word index).1 &&& ~~~(operand.word index).2, (operand.word index).2)) := by
    rw [invert, reads]
    rfl
  refine ⟨_, computes, Buffer.canonical_tabulate _ _, rfl, ?_⟩
  intro position inside
  have inWord : position % 32 < 32 := Nat.mod_lt _ (by decide)
  have inverted := wordBit_invert (operand.word (position / 32)) inWord
  rw [operand.wordBit_word (by rwa [wide])] at inverted
  rw [Buffer.bit_tabulate, if_pos inside]
  change (wordBit _ _).Decides _ _
  rw [inverted]
  apply Bit.decides_of_admits (Bit.invert_ne_z _)
  intro value
  rw [Bit.admits_invert_iff, admits position inside]
  simp only [Bool.not_eq_eq_eq_not]

end Operator

/-! ## All bits into one -/

/-- The Boolean function of the bits below a width that a reduction stands for. -/
def Reduction.ofBools (width : Nat) (bits : Nat → Bool) : Reduction → Bool
  | fold .and => (List.range width).all bits
  | fold .nand => !(List.range width).all bits
  | fold .or => (List.range width).any bits
  | fold .nor => !(List.range width).any bits
  | fold .xor => exclusiveOr bits width
  | fold .nxor => !exclusiveOr bits width
  | not => !(List.range width).any bits

namespace Buffer

/-- The answer to whether a bit is known to be the given Boolean: that Boolean
if one was found, and the other one if none can be it. -/
def searchAnswer (buffer : Buffer) (value found : Bool) : Bit :=
  if found then Bit.ofBool value
  else if buffer.hasUnknown then Bit.x
  else Bit.ofBool (!value)

theorem searchAnswer_ne_z (buffer : Buffer) (value found : Bool) :
    buffer.searchAnswer value found ≠ Bit.z := by
  unfold searchAnswer
  cases value <;> cases found <;> cases buffer.hasUnknown <;> decide

/-- The answer stands for the Boolean that was searched for if a completion has
it somewhere, and for the other one if a completion has it nowhere. -/
theorem admits_searchAnswer
    {buffer : Buffer}
    (canonical : buffer.Canonical)
    (value : Bool)
    {found : Bool}
    (found_iff : found = true ↔
      ∃ position, position < buffer.width ∧ buffer.bit position = Bit.ofBool value) :
    ((buffer.searchAnswer value found).Admits value ↔
      ∃ bits, buffer.Admits bits ∧ ∃ position, position < buffer.width ∧ bits position = value) ∧
    ((buffer.searchAnswer value found).Admits (!value) ↔
      ∃ bits, buffer.Admits bits ∧
        ∀ position, position < buffer.width → bits position = !value) := by
  constructor
  · have somewhere : (buffer.searchAnswer value found).Admits value ↔
        found = true ∨ buffer.hasUnknown = true := by
      unfold searchAnswer
      cases value <;> cases found <;> cases buffer.hasUnknown <;> decide
    have somewhere_iff : (found = true ∨ buffer.hasUnknown = true) ↔
        ∃ position, position < buffer.width ∧ (buffer.bit position).Admits value := by
      rw [found_iff, hasUnknown_eq_true_iff canonical, ← exists_or]
      simp only [Bit.admits_iff_eq_or, ← and_or_left]
    rw [somewhere, somewhere_iff]
    constructor
    · rintro ⟨position, inside, admitsValue⟩
      obtain ⟨bits, admits, atPosition⟩ := (buffer.admits_bit_iff inside value).1 admitsValue
      exact ⟨bits, admits, position, inside, atPosition⟩
    · rintro ⟨bits, admits, position, inside, atPosition⟩
      exact ⟨position, inside, (buffer.admits_bit_iff inside value).2 ⟨bits, admits, atPosition⟩⟩
  · have nowhere : (buffer.searchAnswer value found).Admits (!value) ↔ ¬found = true := by
      unfold searchAnswer
      cases value <;> cases found <;> cases buffer.hasUnknown <;> decide
    rw [nowhere, found_iff]
    constructor
    · intro notFound
      refine ⟨fun _ => !value, (buffer.admits_iff _).2 ?_, fun _ _ => rfl⟩
      intro position inside
      rw [Bit.admits_iff_ne, Bool.not_not]
      exact fun known => notFound ⟨position, inside, known⟩
    · rintro ⟨bits, admits, other⟩ ⟨position, inside, known⟩
      have admitsOther := (buffer.admits_iff bits).1 admits position inside
      rw [other position inside, Bit.admits_iff_ne, Bool.not_not] at admitsOther
      exact admitsOther known

theorem admits_conjunction_iff
    {buffer : Buffer}
    (canonical : buffer.Canonical)
    (value : Bool) :
    buffer.conjunction.Admits value ↔
      ∃ bits, buffer.Admits bits ∧ (List.range buffer.width).all bits = value := by
  have sameAnswer : buffer.conjunction = buffer.searchAnswer false buffer.anyZero := rfl
  have ⟨somewhere, nowhere⟩ :=
    admits_searchAnswer canonical false (anyZero_eq_true_iff canonical)
  rw [sameAnswer]
  cases value with
  | false => simpa using somewhere
  | true => simpa using nowhere

theorem admits_disjunction_iff
    {buffer : Buffer}
    (canonical : buffer.Canonical)
    (value : Bool) :
    buffer.disjunction.Admits value ↔
      ∃ bits, buffer.Admits bits ∧ (List.range buffer.width).any bits = value := by
  have sameAnswer : buffer.disjunction = buffer.searchAnswer true buffer.anyOne := rfl
  have ⟨somewhere, nowhere⟩ :=
    admits_searchAnswer canonical true (anyOne_eq_true_iff canonical)
  rw [sameAnswer]
  cases value with
  | false => simpa using nowhere
  | true => simpa using somewhere

/-- An unknown bit leaves the parity open, as inverting its Boolean inverts it;
without one there is a single completion. -/
theorem admits_parity_iff
    {buffer : Buffer}
    (canonical : buffer.Canonical)
    (value : Bool) :
    buffer.parity.Admits value ↔
      ∃ bits, buffer.Admits bits ∧ exclusiveOr bits buffer.width = value := by
  unfold parity
  have unknown_iff := hasUnknown_eq_true_iff canonical
  cases unknown : buffer.hasUnknown with
  | true =>
      obtain ⟨chosen, inside, isUnknown⟩ := unknown_iff.1 unknown
      refine ⟨fun _ => ?_, fun _ => trivial⟩
      -- One of a completion and its copy with this Boolean inverted has the parity.
      have admitsFlipped : (buffer.bit chosen).Admits (!(buffer.bit chosen).low) :=
        (Bit.admits_iff_eq_or _ _).2 (Or.inr isUnknown)
      have flipped := exclusiveOr_flip (fun position => (buffer.bit position).low) inside
      by_cases already : exclusiveOr (fun position => (buffer.bit position).low) buffer.width =
          value
      · exact ⟨_, buffer.admits_low, already⟩
      · refine ⟨_, buffer.admits_low.update admitsFlipped, flipped.trans ?_⟩
        exact Bool.not_eq.2 already
  | false =>
      have known : ∀ position, position < buffer.width → (buffer.bit position).high = false := by
        intro position inside
        rw [Bool.eq_false_iff]
        intro isUnknown
        rw [unknown_iff.2 ⟨position, inside, isUnknown⟩] at unknown
        contradiction
      rw [if_neg (by decide), Bit.admits_ofBool_iff, oddOnes_eq_exclusiveOr canonical]
      constructor
      · rintro rfl
        exact ⟨_, buffer.admits_low, rfl⟩
      · rintro ⟨bits, admits, rfl⟩
        apply exclusiveOr_congr
        intro position inside
        exact Bit.eq_low_of_admits (known position inside)
          ((buffer.admits_iff bits).1 admits position inside)

/-- Negating a condition is inverting the disjunction of the bits. -/
theorem negation_eq_invert (buffer : Buffer) : buffer.negation = buffer.disjunction.invert := by
  unfold negation truth disjunction
  cases buffer.anyOne <;> cases buffer.hasUnknown <;> rfl

end Buffer

namespace Reduction

/-- A reduction stands for just the Booleans that its function gives for
completions of the value. -/
theorem admits_apply_iff
    {buffer : Buffer}
    (canonical : buffer.Canonical)
    (reduction : Reduction)
    (value : Bool) :
    (reduction.apply buffer).Admits value ↔
      ∃ bits, buffer.Admits bits ∧ reduction.ofBools buffer.width bits = value := by
  cases reduction with
  | fold function =>
      cases function with
      | and => exact Buffer.admits_conjunction_iff canonical value
      | or => exact Buffer.admits_disjunction_iff canonical value
      | xor => exact Buffer.admits_parity_iff canonical value
      | nand =>
          simp only [apply, ofBools, Bit.admits_invert_iff,
            Buffer.admits_conjunction_iff canonical, Bool.not_eq_eq_eq_not]
      | nor =>
          simp only [apply, ofBools, Bit.admits_invert_iff,
            Buffer.admits_disjunction_iff canonical, Bool.not_eq_eq_eq_not]
      | nxor =>
          simp only [apply, ofBools, Bit.admits_invert_iff,
            Buffer.admits_parity_iff canonical, Bool.not_eq_eq_eq_not]
  | not =>
      simp only [apply, ofBools, Buffer.negation_eq_invert, Bit.admits_invert_iff,
        Buffer.admits_disjunction_iff canonical, Bool.not_eq_eq_eq_not]

theorem apply_ne_z (reduction : Reduction) (buffer : Buffer) :
    reduction.apply buffer ≠ Bit.z := by
  have parity_ne_z : buffer.parity ≠ Bit.z := by
    unfold Buffer.parity
    cases buffer.hasUnknown <;> cases buffer.oddOnes <;> decide
  cases reduction with
  | fold function =>
      cases function with
      | and => exact buffer.searchAnswer_ne_z false buffer.anyZero
      | or => exact buffer.searchAnswer_ne_z true buffer.anyOne
      | xor => exact parity_ne_z
      | nand | nor | nxor => exact Bit.invert_ne_z _
  | not =>
      rw [apply, Buffer.negation_eq_invert]
      exact Bit.invert_ne_z _

end Reduction

/-- The Boolean function of two conditions. -/
def Connective.ofBools : Connective → Bool → Bool → Bool
  | and, left, right => left && right
  | or, left, right => left || right

/-- A connective stands for just the Booleans that it gives for those that the
disjunctions of its operands stand for. -/
theorem Connective.admits_apply_iff
    (connective : Connective)
    (left right : Buffer)
    (value : Bool) :
    (connective.apply left.truth right.truth).Admits value ↔
      ∃ leftValue rightValue, left.disjunction.Admits leftValue ∧
        right.disjunction.Admits rightValue ∧
        connective.ofBools leftValue rightValue = value := by
  unfold Buffer.truth Buffer.disjunction
  revert value
  cases connective <;> cases left.anyOne <;> cases left.hasUnknown <;>
    cases right.anyOne <;> cases right.hasUnknown <;> decide

theorem Connective.apply_ne_z (connective : Connective) (left right : Truth) :
    connective.apply left right ≠ Bit.z := by
  cases connective <;> cases left <;> cases right <;> decide

namespace Operator

/-- A reduction is computed for every readable operand, and is exact in bit zero. -/
theorem reduce_decides
    (reduction : Reduction)
    (width : Nat)
    {source : LogicVector}
    (readable : source.Readable) :
    ∃ answer, reduce reduction width source = .ok (Buffer.ofBit width answer) ∧
      answer.Decides source.Admits fun bits => reduction.ofBools source.width bits := by
  obtain ⟨value, reads, canonical, sameWidth, -, admits_iff⟩ := readable.ofVector
  have computes : reduce reduction width source =
      .ok (Buffer.ofBit width (reduction.apply value)) := by
    rw [reduce, reads]
    rfl
  refine ⟨_, computes, Bit.decides_of_admits (reduction.apply_ne_z value) ?_⟩
  intro outcome
  rw [reduction.admits_apply_iff canonical, sameWidth]
  simp only [admits_iff]

/-- A connective is computed for all readable operands, and is exact in bit zero. -/
theorem logical_decides
    (connective : Connective)
    (width : Nat)
    {left right : LogicVector}
    (leftReadable : left.Readable)
    (rightReadable : right.Readable) :
    ∃ answer, logical connective width left right = .ok (Buffer.ofBit width answer) ∧
      answer.Decides
        (fun bits : (Nat → Bool) × (Nat → Bool) => left.Admits bits.1 ∧ right.Admits bits.2)
        (fun bits => connective.ofBools ((List.range left.width).any bits.1)
          ((List.range right.width).any bits.2)) := by
  obtain ⟨leftValue, readsLeft, leftCanonical, leftWidth, -, leftAdmits⟩ := leftReadable.ofVector
  obtain ⟨rightValue, readsRight, rightCanonical, rightWidth, -, rightAdmits⟩ :=
    rightReadable.ofVector
  have computes : logical connective width left right =
      .ok (Buffer.ofBit width (connective.apply leftValue.truth rightValue.truth)) := by
    rw [logical, readsLeft, readsRight]
    rfl
  refine ⟨_, computes, Bit.decides_of_admits (connective.apply_ne_z _ _) ?_⟩
  intro outcome
  rw [connective.admits_apply_iff]
  simp only [Buffer.admits_disjunction_iff leftCanonical,
    Buffer.admits_disjunction_iff rightCanonical, leftWidth, rightWidth, leftAdmits, rightAdmits]
  constructor
  · rintro ⟨_, _, ⟨leftBits, admitsLeft, rfl⟩, ⟨rightBits, admitsRight, rfl⟩, rfl⟩
    exact ⟨(leftBits, rightBits), ⟨admitsLeft, admitsRight⟩, rfl⟩
  · rintro ⟨⟨leftBits, rightBits⟩, ⟨admitsLeft, admitsRight⟩, rfl⟩
    exact ⟨_, _, ⟨leftBits, admitsLeft, rfl⟩, ⟨rightBits, admitsRight, rfl⟩, rfl⟩

end Operator

/-! ## Stored results -/

namespace LogicVector

/-- The operation succeeds on the target and leaves an expected bit at each of
its positions. -/
def Leaves
    (target : LogicVector)
    (operation : Operation LogicVector)
    (expected : Nat → Bit → Prop) : Prop :=
  ∃ updated changed, (target.operate operation).result = .ok (updated, changed) ∧
    updated.toHeader = target.toHeader ∧
    ∀ position, position < target.width →
      ∃ bit, updated.bit? position = some bit ∧ expected position bit

/-- What is expected of a computed value is left in the target. -/
theorem leaves_of_compute
    {target : LogicVector}
    (readable : target.Readable)
    (fourState : target.twoState = false)
    {operation : Operation LogicVector}
    {value : Buffer}
    {expected : Nat → Bit → Prop}
    (coversAll : operation.range target.width = (0, target.width - 1))
    (computes : operation.compute target = .ok value)
    (canonical : value.Canonical)
    (asExpected : ∀ position, position < target.width → expected position (value.bit position)) :
    target.Leaves operation expected := by
  obtain ⟨updated, changed, operates, sameHeader, leaves⟩ :=
    operate_whole readable fourState coversAll computes canonical
  exact ⟨updated, changed, operates, sameHeader, fun position inside =>
    ⟨_, leaves position inside, asExpected position inside⟩⟩

/-- An answer in one bit is left in bit zero, with zeros above. -/
theorem leaves_answer
    {target : LogicVector}
    (readable : target.Readable)
    (fourState : target.twoState = false)
    {operation : Operation LogicVector}
    {answer : Bit}
    {expected : Bit → Prop}
    (coversAll : operation.range target.width = (0, target.width - 1))
    (computes : operation.compute target = .ok (Buffer.ofBit target.width answer))
    (asExpected : expected answer) :
    target.Leaves operation fun position bit =>
      if position = 0 then expected bit else bit = Bit.zero := by
  apply leaves_of_compute readable fourState coversAll computes (Buffer.canonical_ofBits _ _)
  intro position inside
  rw [Buffer.ofBit, Buffer.bit_ofBits, if_pos inside]
  split
  · exact asExpected
  · rfl

/-- The bitwise, the inverting, the reducing and the connecting operations leave
the exact answers of their Boolean functions over all completions of their
operands, bit by bit or in bit zero with zeros above. -/
theorem operate_decides
    {target : LogicVector}
    (readable : target.Readable)
    (fourState : target.twoState = false) :
    (∀ function left right, left.Readable → right.Readable →
      target.Leaves (.bitwise function left right) fun position bit =>
        bit.Decides
          (fun bits : (Nat → Bool) × (Nat → Bool) => left.Admits bits.1 ∧ right.Admits bits.2)
          (fun bits => function.ofBools (extendBools left.width false bits.1 position)
            (extendBools right.width false bits.2 position))) ∧
    (∀ source, source.Readable →
      target.Leaves (.invert source) fun position bit =>
        bit.Decides source.Admits
          (fun bits => !extendBools source.width source.signed bits position)) ∧
    (∀ reduction source, source.Readable →
      target.Leaves (.reduce reduction source) fun position bit =>
        if position = 0 then
          bit.Decides source.Admits (fun bits => reduction.ofBools source.width bits)
        else bit = Bit.zero) ∧
    (∀ connective left right, left.Readable → right.Readable →
      target.Leaves (.logical connective left right) fun position bit =>
        if position = 0 then
          bit.Decides
            (fun bits : (Nat → Bool) × (Nat → Bool) => left.Admits bits.1 ∧ right.Admits bits.2)
            (fun bits => connective.ofBools ((List.range left.width).any bits.1)
              ((List.range right.width).any bits.2))
        else bit = Bit.zero) := by
  refine ⟨?_, ?_, ?_, ?_⟩
  · intro function left right leftReadable rightReadable
    obtain ⟨value, computes, canonical, -, decides⟩ :=
      Operator.bitwise_decides function target.width leftReadable rightReadable
    exact leaves_of_compute readable fourState rfl (liftM_fault_eq_ok_iff.2 computes) canonical
      decides
  · intro source sourceReadable
    obtain ⟨value, computes, canonical, -, decides⟩ :=
      Operator.invert_decides target.width sourceReadable
    exact leaves_of_compute readable fourState rfl (liftM_fault_eq_ok_iff.2 computes) canonical
      decides
  · intro reduction source sourceReadable
    obtain ⟨answer, computes, decides⟩ :=
      Operator.reduce_decides reduction target.width sourceReadable
    exact leaves_answer readable fourState rfl (liftM_fault_eq_ok_iff.2 computes) decides
  · intro connective left right leftReadable rightReadable
    obtain ⟨answer, computes, decides⟩ :=
      Operator.logical_decides connective target.width leftReadable rightReadable
    exact leaves_answer readable fourState rfl (liftM_fault_eq_ok_iff.2 computes) decides

/-- New vectors are combined and folded into a narrower one. -/
theorem operate_decides_newVectors :
    ∃ target source, create 3 Kind.plain true = .ok target ∧
      create 33 Kind.signal true = .ok source ∧
      target.Readable ∧ source.Readable ∧ target.twoState = false ∧
      (target.Leaves (.bitwise .and source target) fun position bit =>
        bit.Decides
          (fun bits : (Nat → Bool) × (Nat → Bool) => source.Admits bits.1 ∧ target.Admits bits.2)
          (fun bits => extendBools 33 false bits.1 position &&
            extendBools 3 false bits.2 position)) ∧
      (target.Leaves (.reduce (.fold .xor) source) fun position bit =>
        if position = 0 then bit.Decides source.Admits (fun bits => exclusiveOr bits 33)
        else bit = Bit.zero) := by
  have newTarget : create 3 Kind.plain true = .ok _ := rfl
  have newSource : create 33 Kind.signal true = .ok _ := rfl
  have targetReadable := create_readable newTarget
  have sourceReadable := create_readable newSource
  have decides := operate_decides targetReadable rfl
  exact ⟨_, _, newTarget, newSource, targetReadable, sourceReadable, rfl,
    decides.1 .and _ _ sourceReadable targetReadable,
    decides.2.2.1 (.fold .xor) _ sourceReadable⟩

end LogicVector
end FourState

import FourState.Operator.Operation
import FourState.Proofs.Completion
import FourState.Proofs.Guarded.Arithmetic
import FourState.Proofs.Guarded.Assignment
import FourState.Proofs.Guarded.Reading
import FourState.Proofs.Operating

/-!
# Guarded operators

Every operator with each of its machine steps guarded.  For readable operands and a
target of a width that a vector can have, each of them agrees with the operator
that runs: no step fails, and a division by zero is an answer and no fault.
-/

namespace FourState

/-- A buffer inside the limits has a width. -/
def Buffer.OfWidth (width : Nat) (buffer : Buffer) : Prop :=
  buffer.InLimits ∧ buffer.width = width

/-- An inverted buffer stays inside the limits. -/
theorem Buffer.InLimits.complement
    {buffer : Buffer}
    (limits : buffer.InLimits) :
    buffer.complement.InLimits :=
  ⟨canonical_trim (by simpa using limits.canonical.size_low) limits.canonical.size_high,
    limits.width_pos, limits.width_le⟩

namespace Guarded

/-! ## Operands -/

/-- The value of a vector, cut or extended to a width. -/
def operand (vector : LogicVector) (width : Nat) (signExtend : Bool) : Guarded Buffer := do
  let value ← Buffer.ofVector vector
  resized value width signExtend

/-- Compute a result from known operands; with an unknown bit in one of them
the result is all `x`. -/
def whenKnown (width : Nat) (operands : List Buffer) (compute : Guarded Buffer) :
    Guarded Buffer :=
  if operands.any Buffer.hasUnknown then unknown width else compute

/-- The value with one bit at position zero and known zeros above. -/
def ofBit (width : Nat) (bit : Bit) : Guarded Buffer :=
  setBit (Buffer.zero width) 0 bit

section Operands

variable {vector : LogicVector} {width : Nat}

theorem ofVector_agrees (readable : vector.Readable) :
    Agrees (Buffer.OfWidth vector.width) (liftM (Buffer.ofVector vector))
      (Buffer.ofVector vector) := by
  obtain ⟨value, reads, canonical, sameWidth, -⟩ := readable.ofVector
  refine ⟨value, liftM_eq_ok reads, reads, ⟨canonical, ?_, ?_⟩, sameWidth⟩
  · rw [sameWidth]
    exact readable.wellFormed.width_pos
  · rw [sameWidth]
    exact readable.wellFormed.width_le

theorem operand_agrees
    (readable : vector.Readable)
    (notEmpty : 0 < width)
    (small : width ≤ maxWidth)
    (signExtend : Bool) :
    Agrees (Buffer.OfWidth width) (operand vector width signExtend)
      (vector.operand width signExtend) :=
  (ofVector_agrees readable).bind fun value limits =>
    agrees_ok (resized_eq_ok limits.1.width_pos notEmpty small signExtend)
      ⟨Buffer.inLimits_resized value notEmpty small signExtend, Buffer.width_resized _ _ _⟩

theorem whenKnown_agrees
    (notEmpty : 0 < width)
    (small : width ≤ maxWidth)
    (operands : List Buffer)
    {guarded : Guarded Buffer}
    {other : Except Fault Buffer}
    (agrees : Agrees Buffer.InLimits guarded other) :
    Agrees Buffer.InLimits (whenKnown width operands guarded)
      (FourState.whenKnown width operands other) := by
  unfold whenKnown FourState.whenKnown
  split
  · exact agrees_ok (unknown_eq_ok notEmpty) (Buffer.inLimits_unknown notEmpty small)
  · exact agrees

/-- One bit set in a sequence of zeros. -/
theorem setBit_replicate (notEmpty : 0 < width) (value : Bool) :
    Words.setBit (Array.replicate (wordCount width) 0) 0 value =
      Words.ofBits width fun position => decide (position = 0) && value := by
  apply Array.ext (by simp)
  intro index inSet inBits
  refine BitVec.eq_of_getLsbD_eq fun offset inWord => ?_
  simp only [Words.setBit, Words.ofBits, Array.getElem_modify, Array.getElem_replicate,
    Array.getElem_ofFn, BitWord.getLsbD_ofBits, inWord, decide_true, Bool.true_and]
  by_cases isFirst : 0 / 32 = index
  · subst isFirst
    rw [if_pos rfl, BitWord.getLsbD_withBit _ (by decide)]
    by_cases isLowest : offset = 0
    · simp [isLowest, notEmpty]
    · simp [isLowest]
  · have isLater : ¬32 * index + offset = 0 := by omega
    rw [if_neg isFirst, decide_eq_false isLater]
    simp

theorem ofBit_eq_ok (notEmpty : 0 < width) (bit : Bit) :
    ofBit width bit = .ok (Buffer.ofBit width bit) := by
  have plane (half : Bit → Bool) (isClear : half Bit.zero = false) :
      (fun position : Nat => half (if position = 0 then bit else Bit.zero)) =
        fun position => decide (position = 0) && half bit := by
    funext position
    split
    · rename_i isFirst
      simp [isFirst]
    · rename_i isLater
      simp [isLater, isClear]
  rw [ofBit, setBit_eq_ok (Buffer.canonical_zero width) notEmpty]
  refine congrArg Except.ok ?_
  unfold Buffer.setBit Buffer.zero Buffer.ofBit Buffer.ofBits
  dsimp only
  rw [setBit_replicate notEmpty, setBit_replicate notEmpty, plane Bit.low rfl, plane Bit.high rfl]

end Operands

namespace Operator

/-! ## Arithmetic operators -/

/-- Apply an arithmetic function to two operands at the target width. -/
def combine (width : Nat) (left right : LogicVector)
    (function : Buffer → Buffer → Guarded Buffer) : Guarded Buffer := do
  let leftValue ← operand left width (bothSigned left right)
  let rightValue ← operand right width (bothSigned left right)
  whenKnown width [leftValue, rightValue] (function leftValue rightValue)

/-- The sum. -/
def add (width : Nat) (left right : LogicVector) : Guarded Buffer :=
  combine width left right fun first second => sum first second false

/-- The sum with the complement and a carry. -/
def sumComplement (left right : Buffer) (carry : Bool) : Guarded Buffer := do
  let inverted ← complement right
  sum left inverted carry

/-- The difference, as the sum with the complement and one. -/
def subtract (width : Nat) (left right : LogicVector) : Guarded Buffer :=
  combine width left right fun first second => sumComplement first second true

/-- The product. -/
def multiply (width : Nat) (left right : LogicVector) : Guarded Buffer :=
  combine width left right product

/-- The negation, as the complement and one. -/
def negate (width : Nat) (source : LogicVector) : Guarded Buffer := do
  let value ← operand source width source.signed
  whenKnown width [value] (sumComplement (Buffer.zero width) value true)

/-- A vector's own value and one. -/
def increment (target : LogicVector) : Guarded Buffer := do
  let value ← Buffer.ofVector target
  whenKnown target.width [value] (sum value (Buffer.zero value.width) true)

/-- A vector's own value less one, as the sum with all ones. -/
def decrement (target : LogicVector) : Guarded Buffer := do
  let value ← Buffer.ofVector target
  whenKnown target.width [value] (sumComplement value (Buffer.zero value.width) false)

section Arithmetic

variable {width : Nat} {left right source target : LogicVector}

theorem sumComplement_agrees
    {first second : Buffer}
    (limits : first.InLimits)
    (otherLimits : second.InLimits)
    (sameWidth : second.width = first.width)
    (carry : Bool) :
    Agrees Buffer.InLimits (sumComplement first second carry)
      (first.add second.complement carry) := by
  rw [sumComplement, bind_of_ok (complement_eq_ok otherLimits)]
  exact sum_agrees limits otherLimits.complement sameWidth carry

theorem combine_agrees
    (notEmpty : 0 < width)
    (small : width ≤ maxWidth)
    (leftReadable : left.Readable)
    (rightReadable : right.Readable)
    {guarded : Buffer → Buffer → Guarded Buffer}
    {other : Buffer → Buffer → Except Fault Buffer}
    (agrees : ∀ first second : Buffer, first.InLimits → second.InLimits →
      second.width = first.width → Agrees Buffer.InLimits (guarded first second)
        (other first second)) :
    Agrees Buffer.InLimits (combine width left right guarded)
      (FourState.Operator.combine width left right other) :=
  (operand_agrees leftReadable notEmpty small _).bind fun first firstLimits =>
    (operand_agrees rightReadable notEmpty small _).bind fun second secondLimits =>
      whenKnown_agrees notEmpty small [first, second]
        (agrees first second firstLimits.1 secondLimits.1
          (secondLimits.2.trans firstLimits.2.symm))

theorem add_agrees
    (notEmpty : 0 < width)
    (small : width ≤ maxWidth)
    (leftReadable : left.Readable)
    (rightReadable : right.Readable) :
    Agrees Buffer.InLimits (add width left right) (FourState.Operator.add width left right) :=
  combine_agrees notEmpty small leftReadable rightReadable
    fun _ _ limits otherLimits sameWidth => sum_agrees limits otherLimits sameWidth false

theorem subtract_agrees
    (notEmpty : 0 < width)
    (small : width ≤ maxWidth)
    (leftReadable : left.Readable)
    (rightReadable : right.Readable) :
    Agrees Buffer.InLimits (subtract width left right)
      (FourState.Operator.subtract width left right) :=
  combine_agrees notEmpty small leftReadable rightReadable
    fun _ _ limits otherLimits sameWidth => sumComplement_agrees limits otherLimits sameWidth true

theorem multiply_agrees
    (notEmpty : 0 < width)
    (small : width ≤ maxWidth)
    (leftReadable : left.Readable)
    (rightReadable : right.Readable) :
    Agrees Buffer.InLimits (multiply width left right)
      (FourState.Operator.multiply width left right) :=
  combine_agrees notEmpty small leftReadable rightReadable
    fun _ _ limits otherLimits sameWidth => product_agrees limits otherLimits sameWidth

theorem negate_agrees
    (notEmpty : 0 < width)
    (small : width ≤ maxWidth)
    (readable : source.Readable) :
    Agrees Buffer.InLimits (negate width source) (FourState.Operator.negate width source) :=
  (operand_agrees readable notEmpty small _).bind fun value limits =>
    whenKnown_agrees notEmpty small [value]
      (sumComplement_agrees (Buffer.inLimits_zero notEmpty small) limits.1 limits.2 true)

theorem increment_agrees (readable : target.Readable) :
    Agrees Buffer.InLimits (increment target) (FourState.Operator.increment target) :=
  (ofVector_agrees readable).bind fun value limits =>
    whenKnown_agrees readable.wellFormed.width_pos readable.wellFormed.width_le [value]
      (sum_agrees limits.1 (Buffer.inLimits_zero limits.1.width_pos limits.1.width_le) rfl true)

theorem decrement_agrees (readable : target.Readable) :
    Agrees Buffer.InLimits (decrement target) (FourState.Operator.decrement target) :=
  (ofVector_agrees readable).bind fun value limits =>
    whenKnown_agrees readable.wellFormed.width_pos readable.wellFormed.width_le [value]
      (sumComplement_agrees limits.1
        (Buffer.inLimits_zero limits.1.width_pos limits.1.width_le) rfl false)

end Arithmetic

/-! ## Bitwise operators -/

/-- Apply a Boolean function bit by bit to zero-extended operands. -/
def bitwise (function : BitFunction) (width : Nat) (left right : LogicVector) :
    Guarded Buffer := do
  let leftValue ← operand left width false
  let rightValue ← operand right width false
  tabulate width fun index =>
    return function.apply (leftValue.word index) (rightValue.word index)

/-- Invert the known bits; an unknown bit becomes `x`. -/
def invert (width : Nat) (source : LogicVector) : Guarded Buffer := do
  let value ← operand source width source.signed
  tabulate width fun index =>
    return (~~~(value.word index).1 &&& ~~~(value.word index).2, (value.word index).2)

section Bitwise

variable {width : Nat} {left right source : LogicVector}

theorem bitwise_agrees
    (notEmpty : 0 < width)
    (small : width ≤ maxWidth)
    (leftReadable : left.Readable)
    (rightReadable : right.Readable)
    (function : BitFunction) :
    Agrees Buffer.InLimits (bitwise function width left right)
      (FourState.Operator.bitwise function width left right) :=
  (operand_agrees leftReadable notEmpty small _).bind fun _ _ =>
    (operand_agrees rightReadable notEmpty small _).bind fun _ _ =>
      agrees_ok (tabulate_eq_ok notEmpty fun _ _ => rfl)
        ⟨Buffer.canonical_tabulate _ _, notEmpty, small⟩

theorem invert_agrees
    (notEmpty : 0 < width)
    (small : width ≤ maxWidth)
    (readable : source.Readable) :
    Agrees Buffer.InLimits (invert width source) (FourState.Operator.invert width source) :=
  (operand_agrees readable notEmpty small _).bind fun _ _ =>
    agrees_ok (tabulate_eq_ok notEmpty fun _ _ => rfl)
      ⟨Buffer.canonical_tabulate _ _, notEmpty, small⟩

end Bitwise

/-! ## Answers in one bit -/

/-- Compare two operands as integers. -/
def compare (relation : Relation) (width : Nat) (left right : LogicVector) : Guarded Buffer := do
  let leftValue ← operand left (max left.width right.width) (bothSigned left right)
  let rightValue ← operand right (max left.width right.width) (bothSigned left right)
  if leftValue.hasUnknown || rightValue.hasUnknown then ofBit width Bit.x
  else
    let ordering ← order leftValue rightValue (bothSigned left right)
    ofBit width (Bit.ofBool (relation.holds ordering))

/-- Match two operands bit by bit, zero-extended to the wider one. -/
def caseCompare (operator : CaseMatch) (width : Nat) (left right : LogicVector) :
    Guarded Buffer := do
  let leftValue ← operand left (max left.width right.width) false
  let rightValue ← operand right (max left.width right.width) false
  let matching := (List.range leftValue.low.size).all fun index =>
    decide (operator.mismatches (leftValue.word index) (rightValue.word index) = 0)
  ofBit width (Bit.ofBool (matching != decide (operator = CaseMatch.different)))

/-- Combine two operands as conditions. -/
def logical (connective : Connective) (width : Nat) (left right : LogicVector) :
    Guarded Buffer := do
  let leftValue ← Buffer.ofVector left
  let rightValue ← Buffer.ofVector right
  ofBit width (connective.apply leftValue.truth rightValue.truth)

/-- Fold every bit of the operand into bit zero. -/
def reduce (reduction : Reduction) (width : Nat) (source : LogicVector) : Guarded Buffer := do
  let value ← Buffer.ofVector source
  let answer ← Guarded.reduce reduction value
  ofBit width answer

section Answers

variable {width : Nat} {left right source : LogicVector}

/-- The wider of two readable operands has a width that a vector can have. -/
theorem common_width (leftReadable : left.Readable) (rightReadable : right.Readable) :
    0 < max left.width right.width ∧ max left.width right.width ≤ maxWidth :=
  ⟨Nat.lt_of_lt_of_le leftReadable.wellFormed.width_pos (Nat.le_max_left _ _),
    Nat.max_le.2 ⟨leftReadable.wellFormed.width_le, rightReadable.wellFormed.width_le⟩⟩

theorem ofBit_agrees
    (notEmpty : 0 < width)
    (small : width ≤ maxWidth)
    (answer : Bit) :
    Agrees Buffer.InLimits (ofBit width answer) (.ok (Buffer.ofBit width answer)) :=
  agrees_ok (ofBit_eq_ok notEmpty answer) ⟨Buffer.canonical_ofBits _ _, notEmpty, small⟩

theorem compare_agrees
    (notEmpty : 0 < width)
    (small : width ≤ maxWidth)
    (leftReadable : left.Readable)
    (rightReadable : right.Readable)
    (relation : Relation) :
    Agrees Buffer.InLimits (compare relation width left right)
      (FourState.Operator.compare relation width left right) := by
  obtain ⟨commonPos, commonLe⟩ := common_width leftReadable rightReadable
  refine (operand_agrees leftReadable commonPos commonLe _).bind fun first limits =>
    (operand_agrees rightReadable commonPos commonLe _).bind fun second otherLimits => ?_
  dsimp only
  split
  · exact ofBit_agrees notEmpty small _
  · rw [bind_of_ok (order_eq_ok limits.1.width_pos otherLimits.1.width_pos _)]
    exact ofBit_agrees notEmpty small _

theorem caseCompare_agrees
    (notEmpty : 0 < width)
    (small : width ≤ maxWidth)
    (leftReadable : left.Readable)
    (rightReadable : right.Readable)
    (operator : CaseMatch) :
    Agrees Buffer.InLimits (caseCompare operator width left right)
      (FourState.Operator.caseCompare operator width left right) := by
  obtain ⟨commonPos, commonLe⟩ := common_width leftReadable rightReadable
  refine (operand_agrees leftReadable commonPos commonLe _).bind fun first limits =>
    (operand_agrees rightReadable commonPos commonLe _).bind fun second otherLimits => ?_
  rw [limits.1.canonical.size_low, limits.2]
  exact ofBit_agrees notEmpty small _

theorem logical_agrees
    (notEmpty : 0 < width)
    (small : width ≤ maxWidth)
    (leftReadable : left.Readable)
    (rightReadable : right.Readable)
    (connective : Connective) :
    Agrees Buffer.InLimits (logical connective width left right)
      (FourState.Operator.logical connective width left right) :=
  (ofVector_agrees leftReadable).bind fun _ _ =>
    (ofVector_agrees rightReadable).bind fun _ _ => ofBit_agrees notEmpty small _

theorem reduce_agrees
    (notEmpty : 0 < width)
    (small : width ≤ maxWidth)
    (readable : source.Readable)
    (reduction : Reduction) :
    Agrees Buffer.InLimits (reduce reduction width source)
      (FourState.Operator.reduce reduction width source) :=
  (ofVector_agrees readable).bind fun value limits => by
    rw [bind_of_ok (reduce_eq_ok limits.1 reduction)]
    exact ofBit_agrees notEmpty small _

end Answers

/-! ## Shifts -/

/-- Move the bits of a value; an arithmetic shift fills the vacated positions. -/
def move (kind : Shift) (value : Buffer) (amount : Nat) : Guarded Buffer :=
  match kind with
  | .left => shiftedLeft value amount
  | .right => shiftedRight value amount
  | .arithmetic => do
      let moved ← shiftedRight value amount
      let filler ← msb value
      fill moved (value.width - amount) value.width filler

/-- Shift a value by the amount that another operand holds. -/
def shift (kind : Shift) (width : Nat) (source amount : LogicVector) : Guarded Buffer := do
  let count ← Buffer.ofVector amount
  if count.hasUnknown then unknown width
  else
    let value ← operand source (max width source.width)
      (source.signed || decide (kind = Shift.arithmetic))
    move kind value count.toCount

section Shifts

theorem move_agrees
    {value : Buffer}
    (limits : value.InLimits)
    (kind : Shift)
    (amount : Nat) :
    Agrees Buffer.InLimits (move kind value amount) (.ok (kind.apply value amount)) := by
  have moved := limits.shiftRight amount
  cases kind with
  | left =>
      exact agrees_ok (shiftedLeft_eq_ok limits amount)
        ⟨Buffer.canonical_shiftLeft _ _, by simpa [Shift.apply] using limits.width_pos,
          by simpa [Shift.apply] using limits.width_le⟩
  | right => exact agrees_ok (shiftedRight_eq_ok limits amount) moved
  | arithmetic =>
      refine agrees_ok ?_ ⟨Buffer.canonical_fill moved.canonical _ _ _, moved.width_pos,
        moved.width_le⟩
      rw [move, bind_of_ok (shiftedRight_eq_ok limits amount),
        bind_of_ok (msb_eq_ok limits.width_pos)]
      exact fill_eq_ok moved.canonical.size_low moved.canonical.size_high moved.width_le _ _ _

theorem shift_agrees
    {width : Nat}
    {source amount : LogicVector}
    (notEmpty : 0 < width)
    (small : width ≤ maxWidth)
    (readable : source.Readable)
    (amountReadable : amount.Readable)
    (kind : Shift) :
    Agrees Buffer.InLimits (shift kind width source amount)
      (FourState.Operator.shift kind width source amount) := by
  have commonPos : 0 < max width source.width := Nat.lt_of_lt_of_le notEmpty (Nat.le_max_left _ _)
  have commonLe : max width source.width ≤ maxWidth :=
    Nat.max_le.2 ⟨small, readable.wellFormed.width_le⟩
  refine (ofVector_agrees amountReadable).bind fun count _ => ?_
  split
  · exact agrees_ok (unknown_eq_ok notEmpty) (Buffer.inLimits_unknown notEmpty small)
  · exact (operand_agrees readable commonPos commonLe _).bind fun value limits =>
      move_agrees limits.1 kind _

end Shifts

/-! ## Rearrangements -/

/-- The number of positions from `lsb` to `msb`. -/
def span (lsb msb : Nat) : Guarded Nat := do
  let last ← sub msb lsb
  Guarded.add 64 last 1

/-- The bits `lsb` to `msb` of the source. -/
def partSelect (source : LogicVector) (lsb msb : Nat) : Guarded Buffer := do
  assert (lsb ≤ msb ∧ msb < source.width)
  let value ← Buffer.ofVector source
  let shifted ← shiftedRight value lsb
  let width ← span lsb msb
  resized shifted width false

/-- The source, extended by its own signedness, at the bits `lsb` to `msb` of
the target. -/
def partAssign (target source : LogicVector) (lsb msb : Nat) : Guarded Buffer := do
  assert (lsb ≤ msb ∧ msb < target.width)
  let value ← Buffer.ofVector source
  let width ← span lsb msb
  let fitted ← resized value width source.signed
  insert (Buffer.zero target.width) lsb fitted

/-- Add copies of an item at rising positions, until the target is full or the
copies are used up. -/
def replicate (item : Buffer) : Nat → Nat → Buffer → Guarded Buffer
  | 0, _, result => return result
  | copies + 1, position, result =>
      if result.width ≤ position then return result
      else do
        let inserted ← insert result position item
        let next ← Guarded.add 64 position item.width
        replicate item copies next inserted

/-- The value repeated as often as the count says. -/
def expand (width : Nat) (count value : LogicVector) : Guarded Buffer := do
  let copies ← Buffer.ofVector count
  if copies.hasUnknown then unknown width
  else
    let item ← Buffer.ofVector value
    replicate item copies.toCount 0 (Buffer.zero width)

/-- The right operand, and above it the left one. -/
def concat (width : Nat) (left right : LogicVector) : Guarded Buffer := do
  let lower ← Buffer.ofVector right
  let inserted ← insert (Buffer.zero width) 0 lower
  let upper ← Buffer.ofVector left
  insert inserted lower.width upper

section Rearrangements

variable {width lsb msb : Nat} {left right source target : LogicVector}

theorem span_eq_ok (ordered : lsb ≤ msb) (small : msb < maxWidth) :
    span lsb msb = .ok (msb - lsb + 1) := by
  have msbLt : msb < 65536 := small
  rw [span, bind_of_ok (sub_eq_ok ordered)]
  exact add_eq_ok (lt_modulus (by decide) (by omega))

theorem partSelect_agrees
    (readable : source.Readable)
    (inRange : lsb ≤ msb ∧ msb < source.width) :
    Agrees Buffer.InLimits (partSelect source lsb msb)
      (FourState.Operator.partSelect source lsb msb) := by
  have small : msb < maxWidth := Nat.lt_of_lt_of_le inRange.2 readable.wellFormed.width_le
  have notEmpty : 0 < msb - lsb + 1 := Nat.succ_pos _
  have widthLe : msb - lsb + 1 ≤ maxWidth := by omega
  rw [partSelect, FourState.Operator.partSelect, LogicVector.requireRange,
    bind_of_ok (assert_eq_ok inRange), require_bind_of_true inRange]
  refine (ofVector_agrees readable).bind fun value limits => ?_
  rw [bind_of_ok (shiftedRight_eq_ok limits.1 lsb), bind_of_ok (span_eq_ok inRange.1 small)]
  exact agrees_ok (resized_eq_ok (limits.1.shiftRight lsb).width_pos notEmpty widthLe false)
    (Buffer.inLimits_resized _ notEmpty widthLe false)

theorem partAssign_agrees
    (targetPos : 0 < target.width)
    (targetLe : target.width ≤ maxWidth)
    (readable : source.Readable)
    (inRange : lsb ≤ msb ∧ msb < target.width) :
    Agrees (Buffer.OfWidth target.width) (partAssign target source lsb msb)
      (FourState.Operator.partAssign target source lsb msb) := by
  have small : msb < maxWidth := Nat.lt_of_lt_of_le inRange.2 targetLe
  have notEmpty : 0 < msb - lsb + 1 := Nat.succ_pos _
  have widthLe : msb - lsb + 1 ≤ maxWidth := by omega
  have zeroLimits := Buffer.inLimits_zero targetPos targetLe
  rw [partAssign, FourState.Operator.partAssign, LogicVector.requireRange,
    bind_of_ok (assert_eq_ok inRange), require_bind_of_true inRange]
  refine (ofVector_agrees readable).bind fun value limits => ?_
  rw [bind_of_ok (span_eq_ok inRange.1 small),
    bind_of_ok (resized_eq_ok limits.1.width_pos notEmpty widthLe source.signed)]
  have fitted := Buffer.inLimits_resized value notEmpty widthLe source.signed
  exact agrees_ok (insert_eq_ok zeroLimits fitted lsb)
    ⟨zeroLimits.insert lsb _, Buffer.width_insert _ _ _⟩

/-- The position stays below twice the largest width, however many copies are asked for. -/
theorem replicate_agrees
    {item result : Buffer}
    (itemLimits : item.InLimits)
    (limits : result.InLimits)
    (copies position : Nat) :
    Agrees Buffer.InLimits (replicate item copies position result)
      (FourState.Operator.replicate item copies position result) := by
  induction copies generalizing position result with
  | zero => exact agrees_ok rfl limits
  | succ copies inductionHypothesis =>
      have itemLe : item.width ≤ 65536 := itemLimits.width_le
      have resultLe : result.width ≤ 65536 := limits.width_le
      rw [replicate, FourState.Operator.replicate]
      by_cases full : result.width ≤ position
      · rw [if_pos full, if_neg (by omega)]
        exact agrees_ok rfl limits
      · have fits : position + item.width < modulus 64 := lt_modulus (by decide) (by omega)
        rw [if_neg full, if_pos (by omega), bind_of_ok (insert_eq_ok limits itemLimits position),
          bind_of_ok (add_eq_ok fits), Checked.add_eq_ok fits]
        exact inductionHypothesis (limits.insert position item) (position + item.width)

theorem expand_agrees
    {count value : LogicVector}
    (notEmpty : 0 < width)
    (small : width ≤ maxWidth)
    (countReadable : count.Readable)
    (readable : value.Readable) :
    Agrees Buffer.InLimits (expand width count value)
      (FourState.Operator.expand width count value) := by
  refine (ofVector_agrees countReadable).bind fun copies _ => ?_
  split
  · exact agrees_ok (unknown_eq_ok notEmpty) (Buffer.inLimits_unknown notEmpty small)
  · exact (ofVector_agrees readable).bind fun item limits =>
      replicate_agrees limits.1 (Buffer.inLimits_zero notEmpty small) _ _

theorem concat_agrees
    (notEmpty : 0 < width)
    (small : width ≤ maxWidth)
    (leftReadable : left.Readable)
    (rightReadable : right.Readable) :
    Agrees Buffer.InLimits (concat width left right)
      (FourState.Operator.concat width left right) := by
  have zeroLimits := Buffer.inLimits_zero notEmpty small
  refine (ofVector_agrees rightReadable).bind fun lower lowerLimits => ?_
  rw [bind_of_ok (insert_eq_ok zeroLimits lowerLimits.1 0)]
  exact (ofVector_agrees leftReadable).bind fun upper upperLimits =>
    agrees_ok (insert_eq_ok (zeroLimits.insert 0 lower) upperLimits.1 lower.width)
      ((zeroLimits.insert 0 lower).insert lower.width upper)

end Rearrangements

/-! ## Division -/

/-- Divide.  A known zero divisor is an answer, and logs both operands as they show. -/
def divide (division : Division) (width : Nat) (left right : LogicVector) :
    Guarded (Outcome Buffer) := do
  let leftValue ← Buffer.ofVector left
  let rightValue ← Buffer.ofVector right
  if leftValue.hasUnknown || rightValue.hasUnknown then
    let value ← unknown width
    return Outcome.quiet (.ok value)
  else if rightValue.isNotZero = true then
    let value ← Guarded.divide division width (bothSigned left right) leftValue rightValue
    return Outcome.quiet (.ok value)
  else
    let dividend ← display left
    let divisor ← display right
    return {
      result := .error (.divisionByZero division)
      log := [.dividedByZero division (String.ofList dividend) (String.ofList divisor)] }

end Operator

/-! ## Operations -/

/-- The outcome of a computation that logs nothing. -/
def quietly (computation : Guarded Buffer) : Guarded (Outcome Buffer) := do
  let value ← computation
  return Outcome.quiet (.ok value)

/-- The value an operation computes for a target, or its failure with the log. -/
def compute (target : LogicVector) : Operation LogicVector → Guarded (Outcome Buffer)
  | .add left right => quietly (Operator.add target.width left right)
  | .subtract left right => quietly (Operator.subtract target.width left right)
  | .multiply left right => quietly (Operator.multiply target.width left right)
  | .negate source => quietly (Operator.negate target.width source)
  | .increment => quietly (Operator.increment target)
  | .decrement => quietly (Operator.decrement target)
  | .divide division left right => Operator.divide division target.width left right
  | .bitwise function left right => quietly (Operator.bitwise function target.width left right)
  | .invert source => quietly (Operator.invert target.width source)
  | .compare relation left right => quietly (Operator.compare relation target.width left right)
  | .caseCompare operator left right =>
      quietly (Operator.caseCompare operator target.width left right)
  | .logical connective left right =>
      quietly (Operator.logical connective target.width left right)
  | .reduce reduction source => quietly (Operator.reduce reduction target.width source)
  | .shift kind source amount => quietly (Operator.shift kind target.width source amount)
  | .partSelect source lsb msb => quietly (Operator.partSelect source lsb msb)
  | .partAssign source lsb msb => quietly (Operator.partAssign target source lsb msb)
  | .expand count value => quietly (Operator.expand target.width count value)
  | .concat left right => quietly (Operator.concat target.width left right)

/-- Assign a computed value to the range of an operation. -/
def place (target : LogicVector) (operation : Operation LogicVector) (value : Buffer) :
    Guarded (LogicVector × Bool) :=
  match operation with
  | .partAssign _ lsb msb => assign target value.low value.high lsb msb
  | _ => commit target value

/-- Compute an operation and assign its value. -/
def operate (target : LogicVector) (operation : Operation LogicVector) :
    Guarded (Outcome (LogicVector × Bool)) := do
  let computed ← compute target operation
  match computed.result with
  | .error failure => return { result := .error failure, log := computed.log }
  | .ok value =>
      let answer ← place target operation value
      return Outcome.quiet (.ok answer)

end Guarded

/-- The bits that an operation indexes lie inside the vector they are taken from or
assigned to. -/
def Operation.InRange (target : LogicVector) : Operation LogicVector → Prop
  | partSelect source lsb msb => lsb ≤ msb ∧ msb < source.width
  | partAssign _ lsb msb => lsb ≤ msb ∧ msb < target.width
  | _ => True

namespace Guarded

/-- A guarded computation finds what an operation computes for a target: a value
inside the limits, or, for a division, that it divides by zero. -/
inductive Finds (target : LogicVector) (operation : Operation LogicVector) :
    Guarded (Outcome Buffer) → Prop
  | value (value : Buffer)
      (computes : operation.compute target = .ok value)
      (limits : value.InLimits) :
      Finds target operation (.ok (Outcome.quiet (.ok value)))
  | division (division : Division) (left right : LogicVector)
      (divides : operation = .divide division left right)
      (fails : operation.compute target = .error (.divisionByZero division)) :
      Finds target operation (.ok {
        result := .error (.divisionByZero division)
        log := operation.log (.divisionByZero division) })

section Operations

variable {target : LogicVector} {operation : Operation LogicVector}

theorem finds_of_agrees
    {guarded : Guarded Buffer}
    {other : Except Fault Buffer}
    (agrees : Agrees Buffer.InLimits guarded other)
    (computes : operation.compute target = liftM other) :
    Finds target operation (quietly guarded) := by
  obtain ⟨value, rfl, rfl, limits⟩ := agrees
  exact Finds.value value computes limits

/-- What a division makes of the buffers that are read from its operands. -/
theorem Operator.divide_of_reads
    {width : Nat}
    {left right : LogicVector}
    {dividend divisor : Buffer}
    (leftReads : Buffer.ofVector left = .ok dividend)
    (rightReads : Buffer.ofVector right = .ok divisor)
    (division : Division) :
    FourState.Operator.divide division width left right =
      if (dividend.hasUnknown || divisor.hasUnknown) = true then .ok (Buffer.unknown width)
      else if divisor.isNotZero = true then
        .ok (if bothSigned left right then
            Buffer.ofInt width (division.ofInts dividend.toInt divisor.toInt)
          else Buffer.ofNat width (division.ofNats dividend.toNat divisor.toNat))
      else .error (.divisionByZero division) := by
  rw [FourState.Operator.divide, leftReads, rightReads]
  change (if (dividend.hasUnknown || divisor.hasUnknown) = true then _ else _) = _
  split
  · rfl
  · by_cases notZero : divisor.isNotZero = true
    · rw [if_pos notZero]
      split <;> exact require_bind_of_true notZero _
    · rw [if_neg notZero]
      split <;> exact require_bind_of_false notZero _

theorem Operator.divide_finds
    {left right : LogicVector}
    (notEmpty : 0 < target.width)
    (small : target.width ≤ maxWidth)
    (leftReadable : left.Readable)
    (rightReadable : right.Readable)
    (division : Division) :
    Finds target (.divide division left right)
      (Operator.divide division target.width left right) := by
  obtain ⟨dividend, leftReads, leftRuns, -, -⟩ := ofVector_agrees leftReadable
  obtain ⟨divisor, rightReads, rightRuns, rightLimits, -⟩ := ofVector_agrees rightReadable
  have running := @Operator.divide_of_reads target.width _ _ _ _ leftRuns rightRuns division
  rw [Operator.divide, bind_of_ok leftReads, bind_of_ok rightReads]
  by_cases unknownOperand : (dividend.hasUnknown || divisor.hasUnknown) = true
  · rw [if_pos unknownOperand, bind_of_ok (unknown_eq_ok notEmpty)]
    rw [if_pos unknownOperand] at running
    exact Finds.value _ running (Buffer.inLimits_unknown notEmpty small)
  · rw [if_neg unknownOperand] at running ⊢
    by_cases notZero : divisor.isNotZero = true
    · rw [if_pos notZero, bind_of_ok (divide_eq_ok notEmpty rightLimits.canonical notZero _ _)]
      rw [if_pos notZero] at running
      refine Finds.value _ running ?_
      split
      · exact ⟨Buffer.canonical_ofNat _ _, notEmpty, small⟩
      · exact ⟨Buffer.canonical_ofNat _ _, notEmpty, small⟩
    · rw [if_neg notZero, bind_of_ok (display_eq_ok leftReadable.wellFormed),
        bind_of_ok (display_eq_ok rightReadable.wellFormed)]
      rw [if_neg notZero] at running
      exact Finds.division division left right rfl running

/-- No operator fails on readable operands. -/
theorem compute_finds
    (notEmpty : 0 < target.width)
    (small : target.width ≤ maxWidth)
    (readable : ∀ vector ∈ operation.operands target, vector.Readable)
    (inRange : operation.InRange target) :
    Finds target operation (compute target operation) := by
  cases operation <;> simp only [Operation.operands, List.forall_mem_cons] at readable
  case add =>
    exact finds_of_agrees (Operator.add_agrees notEmpty small readable.1 readable.2.1) rfl
  case subtract =>
    exact finds_of_agrees (Operator.subtract_agrees notEmpty small readable.1 readable.2.1) rfl
  case multiply =>
    exact finds_of_agrees (Operator.multiply_agrees notEmpty small readable.1 readable.2.1) rfl
  case negate => exact finds_of_agrees (Operator.negate_agrees notEmpty small readable.1) rfl
  case increment => exact finds_of_agrees (Operator.increment_agrees readable.1) rfl
  case decrement => exact finds_of_agrees (Operator.decrement_agrees readable.1) rfl
  case divide => exact Operator.divide_finds notEmpty small readable.1 readable.2.1 _
  case bitwise =>
    exact finds_of_agrees (Operator.bitwise_agrees notEmpty small readable.1 readable.2.1 _) rfl
  case invert => exact finds_of_agrees (Operator.invert_agrees notEmpty small readable.1) rfl
  case compare =>
    exact finds_of_agrees (Operator.compare_agrees notEmpty small readable.1 readable.2.1 _) rfl
  case caseCompare =>
    exact finds_of_agrees
      (Operator.caseCompare_agrees notEmpty small readable.1 readable.2.1 _) rfl
  case logical =>
    exact finds_of_agrees (Operator.logical_agrees notEmpty small readable.1 readable.2.1 _) rfl
  case reduce => exact finds_of_agrees (Operator.reduce_agrees notEmpty small readable.1 _) rfl
  case shift =>
    exact finds_of_agrees (Operator.shift_agrees notEmpty small readable.1 readable.2.1 _) rfl
  case partSelect => exact finds_of_agrees (Operator.partSelect_agrees readable.1 inRange) rfl
  case partAssign =>
    obtain ⟨value, computes, runs, limits, -⟩ :=
      Operator.partAssign_agrees notEmpty small readable.1 inRange
    exact finds_of_agrees ⟨value, computes, runs, limits⟩ rfl
  case expand =>
    exact finds_of_agrees (Operator.expand_agrees notEmpty small readable.1 readable.2.1) rfl
  case concat =>
    exact finds_of_agrees (Operator.concat_agrees notEmpty small readable.1 readable.2.1) rfl

/-- A computed value can be put into its range. -/
theorem place_agrees
    (targetReadable : target.Readable)
    (readable : ∀ vector ∈ operation.operands target, vector.Readable)
    (inRange : operation.InRange target)
    {value : Buffer}
    (computes : operation.compute target = .ok value)
    (limits : value.InLimits) :
    Agrees (fun _ => True) (place target operation value)
      (target.assignBuffer value (operation.range target.width).1
        (operation.range target.width).2) := by
  have notEmpty := targetReadable.wellFormed.width_pos
  have small := targetReadable.wellFormed.width_le
  obtain ⟨block, stored⟩ := LogicVector.exists_block targetReadable.isAllocated
  cases operation
  case partAssign source lsb msb =>
    simp only [Operation.operands, List.forall_mem_cons] at readable
    obtain ⟨placed, -, runs, -, sameWidth⟩ :=
      Operator.partAssign_agrees notEmpty small readable.1 inRange
    have lastWord : msb / 32 < wordCount target.width := div_lt_wordCount inRange.2
    rw [Operation.compute, runs] at computes
    cases computes
    have assigns : target.assignBuffer value lsb msb =
        target.assign value.low value.high lsb msb := by
      rw [LogicVector.assignBuffer, if_pos sameWidth]
    rw [place, Operation.range, assigns]
    refine assign_agrees stored inRange ?_ ?_
    · rw [limits.canonical.size_low, limits.canonical.size_high, sameWidth]
      exact ⟨lastWord, lastWord⟩
    · rwa [(targetReadable.wellFormed.block_fits block stored).size_eq]
  all_goals exact commit_agrees targetReadable.wellFormed stored limits

/-- A guarded operation on readable vectors runs as the operation, and gives an answer
or divides by zero. -/
theorem operate_eq_ok
    (targetReadable : target.Readable)
    (readable : ∀ vector ∈ operation.operands target, vector.Readable)
    (inRange : operation.InRange target) :
    operate target operation = .ok (target.operate operation) ∧
      ((∃ answer, (target.operate operation).result = .ok answer) ∨
        ∃ division left right, operation = .divide division left right ∧
          (target.operate operation).result = .error (.divisionByZero division)) := by
  have finds := compute_finds targetReadable.wellFormed.width_pos
    targetReadable.wellFormed.width_le readable inRange
  generalize computing : compute target operation = computed at finds
  rw [operate, computing]
  unfold LogicVector.operate
  cases finds with
  | value value computes limits =>
      obtain ⟨answer, places, runs, -⟩ :=
        place_agrees targetReadable readable inRange computes limits
      rw [computes]
      dsimp only
      rw [runs]
      refine ⟨?_, Or.inl ⟨answer, rfl⟩⟩
      rw [bind_of_ok rfl]
      dsimp only [Outcome.quiet]
      rw [bind_of_ok places]
      rfl
  | division division left right divides fails =>
      rw [fails]
      exact ⟨rfl, Or.inr ⟨division, left, right, divides, rfl⟩⟩

end Operations

end Guarded

end FourState

import FourState.Proofs.Assigning
import FourState.Proofs.Completion

/-!
# Extended operands

An operator reads its operands at a width of its own.  Past its own width a vector
goes on with its most significant bit, whatever this bit is, or with zeros.
Operators that answer in one bit leave zeros above it.
-/

namespace FourState
namespace LogicVector

/-- The bit at a position of a vector without end: past the width, the most
significant bit is repeated or zeros stand. -/
def extended (vector : LogicVector) (signExtend : Bool) (position : Nat) : Bit :=
  (vector.bit? position).getD
    (if signExtend then (vector.bit? (vector.width - 1)).getD Bit.zero else Bit.zero)

/-- The vector shows an answer in bit zero, and zeros above. -/
def Answers (vector : LogicVector) (answer : Bit) : Prop :=
  ∀ position, position < vector.width →
    vector.bit? position = some (if position = 0 then answer else Bit.zero)

variable {vector : LogicVector} {value : Buffer} {width : Nat}

theorem bit?_of_width_le
    {position : Nat}
    (outside : vector.width ≤ position) :
    vector.bit? position = none := by
  rw [bit?, if_neg (Nat.not_lt.2 outside)]

theorem extended_false_of_width_le
    {position : Nat}
    (outside : vector.width ≤ position) :
    vector.extended false position = Bit.zero := by
  rw [extended, bit?_of_width_le outside]
  rfl

/-- A cut or extended value has the bits of the extended vector. -/
theorem Readable.bit_resized
    (readable : vector.Readable)
    (reads : Buffer.ofVector vector = .ok value)
    (signExtend : Bool)
    {position : Nat}
    (inside : position < width) :
    (value.resized width signExtend).bit position = vector.extended signExtend position := by
  obtain ⟨canonical, sameWidth, -⟩ := readable.canonical_ofVector reads
  rw [Buffer.bit_resized canonical, if_pos inside, extended]
  split
  · rename_i inValue
    rw [bit?_of_ofVector reads inValue]
    rfl
  · rename_i outside
    have notEmpty : 0 < value.width := sameWidth ▸ readable.wellFormed.width_pos
    rw [bit?_of_width_le (sameWidth ▸ Nat.not_lt.1 outside), ← sameWidth,
      bit?_of_ofVector reads (Nat.sub_one_lt_of_lt notEmpty)]
    rfl

/-- An operand is the extended vector, cut at the width it is read at. -/
theorem Readable.bit_operand
    (readable : vector.Readable)
    (width : Nat)
    (signExtend : Bool) :
    ∃ value, vector.operand width signExtend = .ok value ∧ value.Canonical ∧
      value.width = width ∧
      ∀ position, position < width →
        value.bit position = vector.extended signExtend position := by
  obtain ⟨value, reads, -⟩ := readable.ofVector
  refine ⟨value.resized width signExtend, ?_, Buffer.canonical_resized _ _ _,
    Buffer.width_resized _ _ _, fun _ inside => readable.bit_resized reads signExtend inside⟩
  rw [LogicVector.operand, reads]
  rfl

/-- An operation that answers in one bit succeeds on any target that keeps the
answer. -/
theorem operate_answers
    {target : LogicVector}
    (readable : target.Readable)
    {operation : Operation LogicVector}
    {answer : Bit}
    (coversAll : operation.range target.width = (0, target.width - 1))
    (computes : operation.compute target = .ok (Buffer.ofBit target.width answer))
    (keeps : target.twoState = true → answer.isKnown = true) :
    ∃ updated changed, (target.operate operation).result = .ok (updated, changed) ∧
      updated.toHeader = target.toHeader ∧ updated.Answers answer := by
  obtain ⟨updated, changed, operates, sameHeader, settles⟩ :=
    operate_settles readable coversAll computes (Buffer.canonical_ofBits _ _)
  refine ⟨updated, changed, operates, sameHeader, ?_⟩
  intro position inside
  have insideTarget : position < target.width := congrArg Header.width sameHeader ▸ inside
  rw [settles position insideTarget]
  simp only [Assignment.settle, whole, Buffer.ofBit, Buffer.bit_ofBits, if_pos insideTarget]
  cases twoState : target.twoState with
  | false => rfl
  | true =>
      -- Settling makes zeros of unknown bits, so a known answer is kept.
      have known := keeps twoState
      rw [if_pos rfl]
      split
      · cases answer with
        | zero | one => rfl
        | x | z => contradiction
      · rfl

end LogicVector
end FourState

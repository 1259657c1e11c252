import FourState.Operator.Operand

/-!
# Shifts

The operand is extended to the wider of the target and itself before it moves.
An unknown bit in the amount makes the whole result `x`.
-/

namespace FourState

/-- The ways to shift. -/
inductive Shift
  | left
  | right
  /-- To the right, repeating the most significant bit. -/
  | arithmetic
  deriving DecidableEq

/-- Move the bits of a value; an arithmetic shift fills the vacated positions. -/
def Shift.apply (shift : Shift) (value : Buffer) (amount : Nat) : Buffer :=
  match shift with
  | left => value.shiftLeft amount
  | right => value.shiftRight amount
  | arithmetic => (value.shiftRight amount).fill (value.width - amount) value.width value.msb

namespace Operator

/-- Shift a value by the amount that another operand holds. -/
def shift (kind : Shift) (width : Nat) (source amount : LogicVector) : Except Fault Buffer := do
  let count ← Buffer.ofVector amount
  if count.hasUnknown then
    return Buffer.unknown width
  let signExtend := source.signed || decide (kind = Shift.arithmetic)
  let value ← source.operand (max width source.width) signExtend
  return kind.apply value count.toCount

end Operator
end FourState

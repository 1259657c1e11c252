import FourState.Buffer.Arithmetic

/-!
# Operands

Operators read their operands into buffers of the width they compute in.
-/

namespace FourState

/-- The value of a vector, cut or extended to a width. -/
def LogicVector.operand (vector : LogicVector) (width : Nat) (signExtend : Bool) :
    Except Fault Buffer := do
  let value ← Buffer.ofVector vector
  return value.resized width signExtend

/-- Two operands count as signed only if both are. -/
def bothSigned (left right : LogicVector) : Bool :=
  left.signed && right.signed

/-- Compute a result from known operands; with an unknown bit in one of them
the result is all `x`. -/
def whenKnown (width : Nat) (operands : List Buffer) (compute : Except Fault Buffer) :
    Except Fault Buffer :=
  if operands.any Buffer.hasUnknown then .ok (Buffer.unknown width) else compute

end FourState

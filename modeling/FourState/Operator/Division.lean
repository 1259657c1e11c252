import FourState.Failure
import FourState.Operator.Operand

/-!
# Division

Quotient and remainder of the operands' integers, read at their own widths: as
two's complement when both are signed, else unsigned.  The quotient is
truncated toward zero and the remainder has the sign of the dividend.
-/

namespace FourState

/-- One of the two results of dividing integers. -/
def Division.ofInts : Division → Int → Int → Int
  | quotient, left, right => left.tdiv right
  | remainder, left, right => left.tmod right

/-- One of the two results of dividing natural numbers. -/
def Division.ofNats : Division → Nat → Nat → Nat
  | quotient, left, right => left / right
  | remainder, left, right => left % right

namespace Operator

/-- Divide; a known zero divisor fails, unless the dividend has an unknown bit. -/
def divide (division : Division) (width : Nat) (left right : LogicVector) :
    Except Failure Buffer := do
  let leftValue ← Buffer.ofVector left
  let rightValue ← Buffer.ofVector right
  if leftValue.hasUnknown || rightValue.hasUnknown then
    return Buffer.unknown width
  require (rightValue.isNotZero = true) (Failure.divisionByZero division)
  if bothSigned left right then
    return Buffer.ofInt width (division.ofInts leftValue.toInt rightValue.toInt)
  else
    return Buffer.ofNat width (division.ofNats leftValue.toNat rightValue.toNat)

end Operator
end FourState

import FourState.Operator.Operand

/-!
# Arithmetic operators

Two's complement arithmetic modulo two to the target width.  Operands are cut
or extended to that width, by their sign when all of them are signed.  A bit
that is unknown after that makes the whole result `x`.
-/

namespace FourState
namespace Operator

/-- Apply an arithmetic function to two operands at the target width. -/
def combine (width : Nat) (left right : LogicVector)
    (function : Buffer → Buffer → Except Fault Buffer) : Except Fault Buffer := do
  let signed := bothSigned left right
  let leftValue ← left.operand width signed
  let rightValue ← right.operand width signed
  whenKnown width [leftValue, rightValue] (function leftValue rightValue)

/-- The sum. -/
def add (width : Nat) (left right : LogicVector) : Except Fault Buffer :=
  combine width left right fun first second => first.add second false

/-- The difference, as the sum with the complement and one. -/
def subtract (width : Nat) (left right : LogicVector) : Except Fault Buffer :=
  combine width left right fun first second => first.add second.complement true

/-- The product. -/
def multiply (width : Nat) (left right : LogicVector) : Except Fault Buffer :=
  combine width left right Buffer.multiply

/-- The negation, as the complement and one. -/
def negate (width : Nat) (source : LogicVector) : Except Fault Buffer := do
  let value ← source.operand width source.signed
  whenKnown width [value] ((Buffer.zero width).add value.complement true)

/-- A vector's own value and one. -/
def increment (target : LogicVector) : Except Fault Buffer := do
  let value ← Buffer.ofVector target
  whenKnown target.width [value] (value.add (Buffer.zero value.width) true)

/-- A vector's own value less one, as the sum with all ones. -/
def decrement (target : LogicVector) : Except Fault Buffer := do
  let value ← Buffer.ofVector target
  whenKnown target.width [value] (value.add (Buffer.zero value.width).complement false)

end Operator
end FourState

import FourState.Operator.Operand

/-!
# Bitwise operators

Boolean functions applied bit by bit.  A result bit is known when the known
operand bits decide it, and `x` otherwise.
-/

namespace FourState

/-- The Boolean functions of two bits. -/
inductive BitFunction
  | and
  | nand
  | or
  | nor
  | xor
  | nxor
  deriving DecidableEq

namespace BitFunction

/-- The function on Booleans. -/
def ofBools : BitFunction → Bool → Bool → Bool
  | and, left, right => left && right
  | nand, left, right => !(left && right)
  | or, left, right => left || right
  | nor, left, right => !(left || right)
  | xor, left, right => left ^^ right
  | nxor, left, right => !(left ^^ right)

/-- The bits where the function is known to be one, and those where it is known
to be zero, for operands given as low and high words. -/
def known (function : BitFunction) (left right : Word × Word) : Word × Word :=
  let leftOne := left.1 &&& ~~~left.2
  let leftZero := ~~~left.1 &&& ~~~left.2
  let rightOne := right.1 &&& ~~~right.2
  let rightZero := ~~~right.1 &&& ~~~right.2
  let bothKnown := ~~~(left.2 ||| right.2)
  match function with
  | and => (leftOne &&& rightOne, leftZero ||| rightZero)
  | nand => (leftZero ||| rightZero, leftOne &&& rightOne)
  | or => (leftOne ||| rightOne, leftZero &&& rightZero)
  | nor => (leftZero &&& rightZero, leftOne ||| rightOne)
  | xor => ((left.1 ^^^ right.1) &&& bothKnown, ~~~(left.1 ^^^ right.1) &&& bothKnown)
  | nxor => (~~~(left.1 ^^^ right.1) &&& bothKnown, (left.1 ^^^ right.1) &&& bothKnown)

/-- The result as a low and a high word: a bit in neither set is `x`. -/
def apply (function : BitFunction) (left right : Word × Word) : Word × Word :=
  let (one, zero) := function.known left right
  (one, ~~~(one ||| zero))

end BitFunction

namespace Operator

/-- Apply a Boolean function bit by bit to zero-extended operands. -/
def bitwise (function : BitFunction) (width : Nat) (left right : LogicVector) :
    Except Fault Buffer := do
  let leftValue ← left.operand width false
  let rightValue ← right.operand width false
  return Buffer.tabulate width fun index =>
    function.apply (leftValue.word index) (rightValue.word index)

/-- Invert the known bits; an unknown bit becomes `x`. -/
def invert (width : Nat) (source : LogicVector) : Except Fault Buffer := do
  let value ← source.operand width source.signed
  return Buffer.tabulate width fun index =>
    let (low, high) := value.word index
    (~~~low &&& ~~~high, high)

end Operator
end FourState

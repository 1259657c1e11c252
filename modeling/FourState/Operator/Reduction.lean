import FourState.Operator.Bitwise

/-!
# Reductions

A reduction folds all bits of its operand into one.  The answer is known when
the known bits decide it.
-/

namespace FourState

/-- The ways to fold a value into one bit. -/
inductive Reduction
  /-- A Boolean function over all bits; the inverting ones invert once, at the end. -/
  | fold (function : BitFunction)
  /-- The negation of the value as a condition. -/
  | not
  deriving DecidableEq

namespace Buffer

/-- One unless a bit is a known zero. -/
def conjunction (buffer : Buffer) : Bit :=
  if buffer.anyZero then Bit.zero
  else if buffer.hasUnknown then Bit.x
  else Bit.one

/-- Zero unless a bit is a known one. -/
def disjunction (buffer : Buffer) : Bit :=
  if buffer.anyOne then Bit.one
  else if buffer.hasUnknown then Bit.x
  else Bit.zero

/-- The parity of the set bits of the low plane. -/
def oddOnes (buffer : Buffer) : Bool :=
  buffer.low.foldl (fun odd word => odd ^^ (BitWord.countOnes word % 2 == 1)) false

/-- One for an odd number of ones. -/
def parity (buffer : Buffer) : Bit :=
  if buffer.hasUnknown then Bit.x else Bit.ofBool buffer.oddOnes

/-- The negation of the value as a condition. -/
def negation (buffer : Buffer) : Bit :=
  match buffer.truth with
  | .true => Bit.zero
  | .false => Bit.one
  | .unknown => Bit.x

end Buffer

/-- Fold the bits of a value. -/
def Reduction.apply (buffer : Buffer) : Reduction → Bit
  | fold .and => buffer.conjunction
  | fold .nand => buffer.conjunction.invert
  | fold .or => buffer.disjunction
  | fold .nor => buffer.disjunction.invert
  | fold .xor => buffer.parity
  | fold .nxor => buffer.parity.invert
  | not => buffer.negation

namespace Operator

/-- Fold every bit of the operand into bit zero. -/
def reduce (reduction : Reduction) (width : Nat) (source : LogicVector) :
    Except Fault Buffer := do
  let value ← Buffer.ofVector source
  return Buffer.ofBit width (reduction.apply value)

end Operator
end FourState

import FourState.Operator.Operand

/-!
# Rearranging bits

Part-select, part-assign, replication and concatenation move four-state bits
without looking at them.
-/

namespace FourState

/-- A range of bits must lie inside the vector it is taken from. -/
def LogicVector.requireRange (vector : LogicVector) (lsb msb : Nat) : Except Fault Unit :=
  require (lsb ≤ msb ∧ msb < vector.width) (Fault.selectRange msb lsb vector.width)

namespace Operator

/-- The bits `lsb` to `msb` of the source. -/
def partSelect (source : LogicVector) (lsb msb : Nat) : Except Fault Buffer := do
  source.requireRange lsb msb
  let value ← Buffer.ofVector source
  return (value.shiftRight lsb).resized (msb - lsb + 1) false

/-- The source, extended by its own signedness, at the bits `lsb` to `msb` of
the target. -/
def partAssign (target source : LogicVector) (lsb msb : Nat) : Except Fault Buffer := do
  target.requireRange lsb msb
  let value ← Buffer.ofVector source
  return (Buffer.zero target.width).insert lsb (value.resized (msb - lsb + 1) source.signed)

/-- Add copies of an item at rising positions, until the target is full or the
copies are used up. -/
def replicate (item : Buffer) : Nat → Nat → Buffer → Except Fault Buffer
  | 0, _, result => return result
  | copies + 1, position, result =>
      if position < result.width then do
        let next ← Checked.add position item.width
        replicate item copies next (result.insert position item)
      else return result

/-- The value repeated as often as the count says; a count with an unknown bit
gives all `x`. -/
def expand (width : Nat) (count value : LogicVector) : Except Fault Buffer := do
  let copies ← Buffer.ofVector count
  if copies.hasUnknown then
    return Buffer.unknown width
  let item ← Buffer.ofVector value
  replicate item copies.toCount 0 (Buffer.zero width)

/-- The right operand, and above it the left one. -/
def concat (width : Nat) (left right : LogicVector) : Except Fault Buffer := do
  let lower ← Buffer.ofVector right
  let upper ← Buffer.ofVector left
  return ((Buffer.zero width).insert 0 lower).insert lower.width upper

end Operator
end FourState

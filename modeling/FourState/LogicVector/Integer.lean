import FourState.Buffer.Integer

/-!
# Integer readings of vectors

The low bits of a vector as machine integers, extended by the sign of a
narrower signed vector, and its unsigned value.  All of them read the low
plane.
-/

namespace FourState
namespace LogicVector

/-- Extend the lowest `width` bits of a word by their sign. -/
def extendSign {size : Nat} (word : BitVec size) (width : Nat) (signed : Bool) : BitVec size :=
  if signed ∧ width < size ∧ word.getLsbD (width - 1) then word ||| ~~~Mask.low width else word

/-- The lowest 32 bits. -/
def low32 (vector : LogicVector) : Except Fault Word := do
  let block ← vector.block
  return extendSign (block.word Plane.valueLow 0) (min vector.width 32) vector.signed

/-- The lowest 64 bits. -/
def low64 (vector : LogicVector) : Except Fault (BitVec 64) := do
  let block ← vector.block
  let joined := block.word Plane.valueLow 1 ++ block.word Plane.valueLow 0
  return extendSign joined (min vector.width 64) vector.signed

/-- The unsigned value. -/
def toNat (vector : LogicVector) : Except Fault Nat := do
  let value ← Buffer.ofVector vector
  return value.toNat

end LogicVector
end FourState

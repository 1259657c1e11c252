import FourState.LogicVector.Basic

/-!
# Coverage readings

Counts and texts of the coverage planes, and the conditions a vector's value
and set plane answer.  Counts run over all bits of the words.
-/

namespace FourState

/-- The number of set bits in the given planes. -/
def Block.countOnes (block : Block) (planes : List Plane) : Nat :=
  block.toList.foldr (fun slice total => slice.countOnes planes + total) 0

namespace LogicVector

/-- Some bit is `x` or `z`. -/
def isUnknown (vector : LogicVector) : Except Fault Bool := do
  let block ← vector.block
  return block.any fun slice => decide (slice.get Plane.valueHigh ≠ 0)

/-- Some bit is a known one. -/
def isNotZero (vector : LogicVector) : Except Fault Bool := do
  let block ← vector.block
  return block.any fun slice =>
    decide (slice.get Plane.valueLow &&& ~~~slice.get Plane.valueHigh ≠ 0)

/-- Some bit has been given a value, as far as the kind remembers. -/
def isSet (vector : LogicVector) : Except Fault Bool :=
  match vector.kind.setPlane? with
  | some plane => do
      let block ← vector.block
      return block.any fun slice => decide (slice.get plane ≠ 0)
  | none => return false

/-- One bit of one plane. -/
def planeBit (vector : LogicVector) (plane : Plane) (index : Nat) : Except Fault Bool := do
  require (index < vector.width) (Fault.bitOutOfRange index)
  let word ← vector.plane (index / 32) plane.val
  return word.getLsbD (index % 32)

/-- The number of set bits in the given planes. -/
def countPlanes (vector : LogicVector) (planes : List Plane) : Except Fault Nat := do
  let block ← vector.block
  return block.countOnes planes

/-- The numbers of bits that rose and that fell; none for a kind without
toggle planes. -/
def toggleCount (vector : LogicVector) : Except Fault (Nat × Nat) :=
  if vector.kind.hasToggles then do
    let rises ← vector.countPlanes [Plane.toggle01]
    let falls ← vector.countPlanes [Plane.toggle10]
    return (rises, falls)
  else
    return (0, 0)

/-- A toggle plane as binary digits, most significant first; all `0` for a kind
without toggle planes. -/
def toggleDigits (vector : LogicVector) (plane : Plane) : Except Fault (List Char) :=
  if vector.kind.hasToggles then do
    let block ← vector.block
    return (List.range vector.width).reverse.map fun index =>
      if block.bit plane index then '1' else '0'
  else
    return List.replicate vector.width '0'

/-- The numbers of bits of a memory that were written and that were read. -/
def accessCount (vector : LogicVector) : Except Fault (Nat × Nat) := do
  require (vector.kind = Kind.memory) Fault.memoryKind
  let written ← vector.countPlanes [Plane.written]
  let read ← vector.countPlanes [Plane.read]
  return (written, read)

end LogicVector
end FourState

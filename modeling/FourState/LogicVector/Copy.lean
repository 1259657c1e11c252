import FourState.LogicVector.Basic

/-!
# Copying planes

Whole-vector operations that move planes as they are, value and coverage
alike: copying, taking a range, changing the width, and uniting coverage.
-/

namespace FourState

/-- The 32 bits of a plane from position `start` on, cut at `limit`. -/
def Block.extract (block : Block) (plane : Plane) (start limit : Nat) : Word :=
  BitWord.window (block.word plane) start &&& Mask.low (limit - start)

namespace LogicVector

/-- Take over every plane of a vector of the same width and kind. -/
def copyFrom (vector source : LogicVector) : Except Fault LogicVector := do
  require (vector.width = source.width) Fault.copyWidths
  require (vector.kind = source.kind) Fault.copyKinds
  let copied ← source.block
  let _ ← vector.block
  return vector.withBlock copied

/-- Fill every plane with the bits of the source from position `lsb` on; past
the end of the source there are zeros. -/
def copyRange (vector source : LogicVector) (lsb : Nat) : Except Fault LogicVector := do
  require (vector.kind = source.kind) Fault.copyRangeKinds
  require (lsb < source.width) (Fault.copyRangeStart lsb source.width)
  let block ← source.block
  let _ ← vector.block
  let copied : Block := Array.ofFn fun index : Fin (wordCount vector.width) =>
    Slice.ofPlanes fun plane => block.extract plane (lsb + 32 * index.val) source.width
  return vector.withBlock (copied.restrict vector.width)

/-- A vector of another width with words of its own.  Every plane keeps the
bits below both widths; above them the vector is as new. -/
def resize (vector : LogicVector) (width : Nat) : Except Fault LogicVector := do
  require (0 < width ∧ width ≤ maxWidth) (Fault.invalidWidth width)
  let fresh := Block.initial width (vector.kind.startsUnknown && !vector.twoState)
  let kept := min width vector.width
  let block := match vector.storage.content? with
    | some old => fresh.mapIdx fun index slice =>
        slice.blend (Mask.inside kept index) (old.slice index)
    | none => fresh
  return { vector with width, storage := .owned block }

/-- Add the coverage of a vector of the same width and kind. -/
def merge (vector source : LogicVector) : Except Fault LogicVector := do
  require (vector.width = source.width) Fault.mergeWidths
  require (vector.kind = source.kind) Fault.mergeKinds
  let added ← source.block
  let block ← vector.block
  return vector.withBlock <| block.mapIdx fun index slice =>
    slice.mark fun plane => if plane.isCoverage then added.word plane index else 0

/-- Clear the coverage and keep the value. -/
def resetCoverage (vector : LogicVector) : Except Fault LogicVector := do
  let block ← vector.block
  return vector.withBlock (block.map fun slice => slice.clearFrom 2)

end LogicVector
end FourState

import FourState.LogicVector.Basic
import FourState.Words

/-!
# Assignment

Every change of a value goes through `LogicVector.assign`.  It takes the bits
of a range from a low and a high word sequence, folds the change into the
coverage planes, and only then replaces the value.  Coverage is sticky, so an
assignment never clears a coverage bit.
-/

namespace FourState

/-- The value words that an assignment leaves under its mask; a two-state vector
keeps zeros in place of unknown bits. -/
def settle (twoState : Bool) (mask low high : Word) : Word × Word :=
  if twoState then (low &&& ~~~high &&& mask, 0) else (low &&& mask, high &&& mask)

namespace Slice

/-- The bits that go from a known zero to a known one. -/
def rises (slice : Slice 32) (low high : Word) : Word :=
  (~~~slice.get Plane.valueLow &&& ~~~slice.get Plane.valueHigh) &&& (low &&& ~~~high)

/-- The bits that go from a known one to a known zero. -/
def falls (slice : Slice 32) (low high : Word) : Word :=
  (slice.get Plane.valueLow &&& ~~~slice.get Plane.valueHigh) &&& (~~~low &&& ~~~high)

/-- The coverage that assigning the value under the mask adds.  A signal counts
a change only where it had been given a value before. -/
def coverage (kind : Kind) (slice : Slice 32) (mask low high : Word) : Plane → Word :=
  match kind with
  | .plain => fun _ => 0
  | .signal => fun plane =>
      if plane = Plane.toggle01 then
        slice.rises low high &&& mask &&& slice.get Plane.signalSet
      else if plane = Plane.toggle10 then
        slice.falls low high &&& mask &&& slice.get Plane.signalSet
      else if plane = Plane.signalSet then mask
      else 0
  | .expression => fun plane => if plane = Plane.expressionSet then mask else 0
  | .memory => fun plane =>
      if plane = Plane.toggle01 then slice.rises low high &&& mask
      else if plane = Plane.toggle10 then slice.falls low high &&& mask
      else if plane = Plane.written then mask
      else 0

/-- The slice after assigning a settled value under the mask. -/
def accept (kind : Kind) (slice : Slice 32) (mask low high : Word) : Slice 32 :=
  (slice.mark (slice.coverage kind mask low high)).assign mask low high

/-- The value under the mask differs from the one to be assigned. -/
def differs (slice : Slice 32) (mask low high : Word) : Bool :=
  decide (slice.get Plane.valueLow &&& mask ≠ low) ||
    decide (slice.get Plane.valueHigh &&& mask ≠ high)

end Slice

namespace LogicVector

/-- The words to be settled in word `index` for the range `lsb` to `msb`. -/
def settled (vector : LogicVector) (low high : Array Word) (lsb msb index : Nat) : Word × Word :=
  settle vector.twoState (Mask.span lsb (msb + 1) index)
    (Words.word low index) (Words.word high index)

/-- Assign the bits `lsb` to `msb` from two word sequences that are counted from
position zero of the vector.  The answer says whether a value bit changed. -/
def assign (vector : LogicVector) (low high : Array Word) (lsb msb : Nat) :
    Except Fault (LogicVector × Bool) := do
  require (lsb ≤ msb ∧ msb < vector.width) (Fault.assignmentRange msb lsb vector.width)
  require (msb / 32 < low.size ∧ msb / 32 < high.size) (Fault.shortBuffer msb)
  let block ← vector.block
  require (msb / 32 < block.size) Fault.wordIndex
  let accepted := block.mapIdx fun index slice =>
    let (low, high) := vector.settled low high lsb msb index
    slice.accept vector.kind (Mask.span lsb (msb + 1) index) low high
  let changed := block.mapIdx fun index slice =>
    let (low, high) := vector.settled low high lsb msb index
    slice.differs (Mask.span lsb (msb + 1) index) low high
  return (vector.withBlock accepted, changed.any id)

/-- Claim the bits `lsb` to `msb` of a signal for an assigner.  The answer says
whether one of them had been claimed before. -/
def claim (vector : LogicVector) (msb lsb : Nat) : Except Fault (LogicVector × Bool) := do
  require (vector.kind = Kind.signal) Fault.claimKind
  require (lsb ≤ msb ∧ msb < vector.width) (Fault.claimRange msb lsb)
  let block ← vector.block
  require (msb / 32 < block.size) Fault.wordIndex
  let claimed := block.mapIdx fun index slice =>
    slice.markPlane Plane.assigned (Mask.span lsb (msb + 1) index)
  let before := block.mapIdx fun index slice =>
    decide (slice.get Plane.assigned &&& Mask.span lsb (msb + 1) index ≠ 0)
  return (vector.withBlock claimed, before.any id)

end LogicVector
end FourState

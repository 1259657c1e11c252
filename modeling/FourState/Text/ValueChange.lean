import FourState.Failure
import FourState.LogicVector.Commit

/-!
# Value changes

A value change gives new bits to a range as letters, most significant first.
A short change is extended to the left by its first letter, an unknown one
repeating itself; of a long one the first letters are dropped.
-/

namespace FourState
namespace ValueChange

/-- The bits of a change, most significant first. -/
def read (text : List Char) : Except LiteralError (List Bit) :=
  match text.mapM Bit.ofChar? with
  | some [] => throw (.malformed .emptyChange)
  | some (bit :: bits) => return bit :: bits
  | none => throw (.malformed (.invalidChange (String.ofList text)))

/-- The bit at a distance from the right end of a change. -/
def bitAt (bits : Array Bit) (distance : Nat) : Bit :=
  if distance < bits.size then bits.getD (bits.size - 1 - distance) Bit.zero
  else (bits.getD 0 Bit.zero).extension

end ValueChange

/-- Apply a value change to the bits `lsb` to `msb`. -/
def LogicVector.applyChange (vector : LogicVector) (text : List Char) (msb lsb : Nat) :
    Except Failure (LogicVector × Bool) := do
  require (lsb ≤ msb ∧ msb < vector.width)
    (Failure.fault (.valueChangeRange msb lsb vector.width))
  let bits ← ValueChange.read text
  let stored := bits.toArray
  let value := Buffer.ofBits vector.width fun position =>
    ValueChange.bitAt stored (position - lsb)
  vector.assign value.low value.high lsb msb

end FourState

import FourState.Buffer.Integer
import FourState.LogicVector.Assign

/-!
# Committing values

The ways to give a vector a value: from a buffer, from another vector, from a
number, all `x`, or by repeating a bit upward.  Each ends in one assignment.
-/

namespace FourState
namespace LogicVector

/-- Assign the bits `lsb` to `msb` from a buffer that is counted from position
zero of the vector.  A buffer of another width is cut or zero-extended. -/
def assignBuffer (vector : LogicVector) (value : Buffer) (lsb msb : Nat) :
    Except Fault (LogicVector × Bool) :=
  let fitted := if value.width = vector.width then value else value.resized vector.width false
  vector.assign fitted.low fitted.high lsb msb

/-- Assign the whole vector from a buffer. -/
def commit (vector : LogicVector) (value : Buffer) : Except Fault (LogicVector × Bool) :=
  vector.assignBuffer value 0 (vector.width - 1)

/-- Assign the bits that the vector has in common with another one. -/
def setValue (vector source : LogicVector) : Except Fault (LogicVector × Bool) := do
  let value ← Buffer.ofVector source
  vector.assign value.low value.high 0 (min vector.width source.width - 1)

/-- Assign `x` to every bit. -/
def setUnknown (vector : LogicVector) : Except Fault (LogicVector × Bool) :=
  vector.commit (Buffer.unknown vector.width)

/-- Assign a natural number, cut to the width. -/
def setNat (vector : LogicVector) (value : Nat) : Except Fault (LogicVector × Bool) :=
  vector.commit (Buffer.ofNat vector.width value)

/-- Assign a 32-bit two's complement number, sign-extended to 64 bits. -/
def setWord (vector : LogicVector) (value : Word) : Except Fault (LogicVector × Bool) :=
  vector.setNat (value.signExtend 64).toNat

/-- Repeat bit `last` in every higher position.  A known bit of an unsigned
vector is followed by zeros. -/
def extendFrom (vector : LogicVector) (last : Nat) : Except Fault (LogicVector × Bool) := do
  require (last < vector.width) (Fault.fillPosition last)
  if last + 1 = vector.width then
    return (vector, false)
  let bit ← vector.bit last
  let filler := if vector.signed then bit else bit.extension
  let value := (Buffer.zero vector.width).fill 0 vector.width filler
  vector.assign value.low value.high (last + 1) (vector.width - 1)

end LogicVector
end FourState

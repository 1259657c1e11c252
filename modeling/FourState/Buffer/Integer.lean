import FourState.Buffer.Move

/-!
# Integer readings of buffers

A number is stored modulo two to the width.  Reading back gives the unsigned
value of the low plane or its two's complement value, where only a known one
in the most significant position is a sign.
-/

namespace FourState
namespace Buffer

/-- The lowest `width` bits of a natural number. -/
def ofNat (width value : Nat) : Buffer :=
  trim { zero width with low := Words.ofNat (wordCount width) value }

/-- The lowest `width` bits of an integer in two's complement. -/
def ofInt (width : Nat) (value : Int) : Buffer :=
  ofNat width (value % modulus width).toNat

/-- The unsigned value of the low plane. -/
def toNat (buffer : Buffer) : Nat :=
  Words.value buffer.low.toList

/-- The two's complement value of the low plane. -/
def toInt (buffer : Buffer) : Int :=
  if 0 < buffer.width ∧ buffer.msb = Bit.one then buffer.toNat - modulus buffer.width
  else buffer.toNat

/-- The largest count that is told apart. -/
def maxCount : Nat :=
  modulus 64 - 1

/-- The low plane as a shift amount or a number of copies. -/
def toCount (buffer : Buffer) : Nat :=
  min buffer.toNat maxCount

@[simp] theorem width_ofNat (width value : Nat) : (ofNat width value).width = width :=
  rfl

@[simp] theorem width_ofInt (width : Nat) (value : Int) : (ofInt width value).width = width :=
  rfl

end Buffer
end FourState

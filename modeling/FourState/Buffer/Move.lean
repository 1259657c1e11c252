import FourState.Buffer.Basic

/-!
# Moving bits

Extension, filling, insertion and shifts of buffers.  Each keeps the buffer
canonical: what leaves the width is dropped.
-/

namespace FourState
namespace Buffer

/-- Give the positions from `first` up to, but not including, `stop` one bit;
positions past the width are left out. -/
def fill (buffer : Buffer) (first stop : Nat) (bit : Bit) : Buffer :=
  { buffer with
    low := Words.fill buffer.low first (min stop buffer.width) bit.low
    high := Words.fill buffer.high first (min stop buffer.width) bit.high }

/-- Cut or extend to a width.  The new positions repeat the most significant
bit when `signExtend` is set and are known zeros otherwise. -/
def resized (buffer : Buffer) (width : Nat) (signExtend : Bool) : Buffer :=
  let fitted : Buffer :=
    { width
      signed := buffer.signed
      low := Words.fit buffer.low (wordCount width)
      high := Words.fit buffer.high (wordCount width) }
  let extended := if signExtend then fitted.fill buffer.width width buffer.msb else fitted
  extended.trim

/-- Add the set plane bits of `source` from position `offset` on. -/
def insert (buffer : Buffer) (offset : Nat) (source : Buffer) : Buffer :=
  if offset < buffer.width then
    trim { buffer with
      low := Words.deposit buffer.low offset source.low.toList
      high := Words.deposit buffer.high offset source.high.toList }
  else buffer

/-- Move every bit up by `amount`; zeros enter at the bottom. -/
def shiftLeft (buffer : Buffer) (amount : Nat) : Buffer :=
  (zero buffer.width |>.setSigned buffer.signed).insert amount buffer

/-- Move every bit down by `amount`; zeros enter at the top. -/
def shiftRight (buffer : Buffer) (amount : Nat) : Buffer :=
  trim { buffer with
    low := Words.shiftRight buffer.low amount
    high := Words.shiftRight buffer.high amount }

@[simp] theorem width_fill (buffer : Buffer) (first stop : Nat) (bit : Bit) :
    (buffer.fill first stop bit).width = buffer.width :=
  rfl

@[simp] theorem width_resized (buffer : Buffer) (width : Nat) (signExtend : Bool) :
    (buffer.resized width signExtend).width = width := by
  unfold resized
  cases signExtend <;> rfl

@[simp] theorem width_insert (buffer : Buffer) (offset : Nat) (source : Buffer) :
    (buffer.insert offset source).width = buffer.width := by
  unfold insert
  split <;> rfl

@[simp] theorem width_shiftLeft (buffer : Buffer) (amount : Nat) :
    (buffer.shiftLeft amount).width = buffer.width := by
  simp [shiftLeft, setSigned]

@[simp] theorem width_shiftRight (buffer : Buffer) (amount : Nat) :
    (buffer.shiftRight amount).width = buffer.width :=
  rfl

end Buffer
end FourState

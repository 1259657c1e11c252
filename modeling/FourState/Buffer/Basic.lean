import FourState.LogicVector.Basic
import FourState.Words

/-!
# Value buffers

A buffer is a value on its own, without coverage: a low and a high sequence of
words for a number of bits, which may be zero.  Operators read their operands
into buffers and compute their result in one.  A buffer is canonical when it
has the words its width needs and no bit past the width.
-/

namespace FourState

/-- A detached four-state value. -/
structure Buffer where
  /-- The number of bits. -/
  width : Nat
  /-- The value is read as two's complement. -/
  signed : Bool
  /-- The low plane. -/
  low : Array Word
  /-- The high plane. -/
  high : Array Word
  deriving DecidableEq

/-- What a whole value says as a condition. -/
inductive Truth
  | false
  | true
  | unknown
  deriving DecidableEq

namespace Buffer

/-- The word counts fit the width, and no bit is set past it. -/
structure Canonical (buffer : Buffer) : Prop where
  /-- The low plane has the words the width needs. -/
  size_low : buffer.low.size = wordCount buffer.width
  /-- The high plane has the words the width needs. -/
  size_high : buffer.high.size = wordCount buffer.width
  /-- The low plane ends at the width. -/
  low_outside : ∀ position, buffer.width ≤ position → Words.bit buffer.low position = false
  /-- The high plane ends at the width. -/
  high_outside : ∀ position, buffer.width ≤ position → Words.bit buffer.high position = false

/-- Known zeros. -/
def zero (width : Nat) : Buffer where
  width
  signed := false
  low := Array.replicate (wordCount width) 0
  high := Array.replicate (wordCount width) 0

/-- Clear the bits past the width. -/
def trim (buffer : Buffer) : Buffer :=
  { buffer with
    low := Words.trim buffer.low buffer.width
    high := Words.trim buffer.high buffer.width }

/-- All bits `x`. -/
def unknown (width : Nat) : Buffer :=
  trim { zero width with high := Array.replicate (wordCount width) (BitVec.allOnes 32) }

/-- The value whose bits are given by a function. -/
def ofBits (width : Nat) (bitAt : Nat → Bit) : Buffer where
  width
  signed := false
  low := Words.ofBits width fun position => (bitAt position).low
  high := Words.ofBits width fun position => (bitAt position).high

/-- The value with one bit at position zero and known zeros above. -/
def ofBit (width : Nat) (bit : Bit) : Buffer :=
  ofBits width fun position => if position = 0 then bit else Bit.zero

/-- A copy of the value of a vector. -/
def ofVector (vector : LogicVector) : Except Fault Buffer := do
  let block ← vector.block
  return {
    width := vector.width
    signed := vector.signed
    low := block.map fun slice => slice.get Plane.valueLow
    high := block.map fun slice => slice.get Plane.valueHigh }

/-- Choose how the value is read. -/
def setSigned (buffer : Buffer) (signed : Bool) : Buffer :=
  { buffer with signed }

/-- The low and high word at an index, zero past the end. -/
def word (buffer : Buffer) (index : Nat) : Word × Word :=
  (Words.word buffer.low index, Words.word buffer.high index)

/-- The bit at a position, a known zero past the width. -/
def bit (buffer : Buffer) (position : Nat) : Bit :=
  if position < buffer.width then
    Bit.ofPlanes (Words.bit buffer.low position) (Words.bit buffer.high position)
  else Bit.zero

/-- Set one bit. -/
def setBit (buffer : Buffer) (position : Nat) (bit : Bit) : Buffer :=
  { buffer with
    low := Words.setBit buffer.low position bit.low
    high := Words.setBit buffer.high position bit.high }

/-- Set one bit, which must lie inside the width. -/
def setBitInside (buffer : Buffer) (position : Nat) (bit : Bit) : Except Fault Buffer := do
  require (position < buffer.width) Fault.bufferIndex
  return buffer.setBit position bit

/-- The most significant bit, a known zero in an empty buffer. -/
def msb (buffer : Buffer) : Bit :=
  buffer.bit (buffer.width - 1)

/-- The most significant bit, if there is one. -/
def msb? (buffer : Buffer) : Option Bit :=
  if buffer.width = 0 then none else some buffer.msb

/-- Some bit is `x` or `z`. -/
def hasUnknown (buffer : Buffer) : Bool :=
  Words.anyBit buffer.high

/-- Some bit of the low plane is set. -/
def isNotZero (buffer : Buffer) : Bool :=
  Words.anyBit buffer.low

/-- Some bit is a known one. -/
def anyOne (buffer : Buffer) : Bool :=
  (buffer.low.zip buffer.high).any fun word => decide (word.1 &&& ~~~word.2 ≠ 0)

/-- The bits of word `index` that are known zeros of the value. -/
def knownZeros (buffer : Buffer) (index : Nat) : Word :=
  ~~~(buffer.word index).1 &&& ~~~(buffer.word index).2 &&& Mask.inside buffer.width index

/-- The bits of word `index` that are known ones of the value. -/
def knownOnes (buffer : Buffer) (index : Nat) : Word :=
  (buffer.word index).1 &&& ~~~(buffer.word index).2 &&& Mask.inside buffer.width index

/-- Some bit is a known zero. -/
def anyZero (buffer : Buffer) : Bool :=
  (List.range buffer.low.size).any fun index => decide (buffer.knownZeros index ≠ 0)

/-- True with a known one, false with known zeros only, else unknown. -/
def truth (buffer : Buffer) : Truth :=
  if buffer.anyOne then Truth.true
  else if buffer.hasUnknown then Truth.unknown
  else Truth.false

@[simp] theorem width_zero (width : Nat) : (zero width).width = width :=
  rfl

@[simp] theorem width_trim (buffer : Buffer) : buffer.trim.width = buffer.width :=
  rfl

@[simp] theorem width_unknown (width : Nat) : (unknown width).width = width :=
  rfl

@[simp] theorem width_ofBits (width : Nat) (bitAt : Nat → Bit) :
    (ofBits width bitAt).width = width :=
  rfl

@[simp] theorem width_setBit (buffer : Buffer) (position : Nat) (bit : Bit) :
    (buffer.setBit position bit).width = buffer.width :=
  rfl

/-- A constructed value has the given bits below its width and zeros above. -/
@[simp] theorem bit_ofBits (width : Nat) (bitAt : Nat → Bit) (position : Nat) :
    (ofBits width bitAt).bit position = if position < width then bitAt position else Bit.zero := by
  by_cases inside : position < width <;> simp [bit, ofBits, inside]

/-- A constructed value is canonical. -/
theorem canonical_ofBits (width : Nat) (bitAt : Nat → Bit) : (ofBits width bitAt).Canonical where
  size_low := by simp [ofBits]
  size_high := by simp [ofBits]
  low_outside := fun position outside => by
    have notInside : ¬position < width := Nat.not_lt.2 outside
    simp [ofBits, notInside]
  high_outside := fun position outside => by
    have notInside : ¬position < width := Nat.not_lt.2 outside
    simp [ofBits, notInside]

end Buffer
end FourState

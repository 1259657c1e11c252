import FourState.Buffer.Integer
import FourState.Words.Arithmetic

/-!
# Buffer arithmetic

Two's complement arithmetic on the low planes of known buffers of one width.
Results wrap to the width.
-/

namespace FourState
namespace Buffer

/-- The known value with the given low words. -/
def ofWords (width : Nat) (words : List Word) : Buffer :=
  trim { zero width with low := words.toArray }

/-- The value whose low and high words are given by a function. -/
def tabulate (width : Nat) (wordAt : Nat → Word × Word) : Buffer :=
  trim {
    width
    signed := false
    low := Array.ofFn fun index : Fin (wordCount width) => (wordAt index).1
    high := Array.ofFn fun index : Fin (wordCount width) => (wordAt index).2 }

/-- The sum of two buffers and a carry. -/
def add (left right : Buffer) (carry : Bool) : Except Fault Buffer := do
  let words ← Words.add left.low.toList right.low.toList carry.toNat
  return ofWords left.width words

/-- Every bit of the low plane inverted. -/
def complement (buffer : Buffer) : Buffer :=
  trim { buffer with low := buffer.low.map fun word => ~~~word }

/-- The product of two buffers. -/
def multiply (left right : Buffer) : Except Fault Buffer := do
  let words ← Words.multiply left.low.toList right.low.toList
  return ofWords left.width words

/-- Compare the values of two buffers. -/
def order (left right : Buffer) (signed : Bool) : Ordering :=
  let magnitudes := Words.order left.low.toList right.low.toList
  if signed then
    match left.msb, right.msb with
    | Bit.one, Bit.zero => .lt
    | Bit.zero, Bit.one => .gt
    | _, _ => magnitudes
  else magnitudes

@[simp] theorem width_ofWords (width : Nat) (words : List Word) :
    (ofWords width words).width = width :=
  rfl

@[simp] theorem width_tabulate (width : Nat) (wordAt : Nat → Word × Word) :
    (tabulate width wordAt).width = width :=
  rfl

@[simp] theorem width_complement (buffer : Buffer) :
    buffer.complement.width = buffer.width :=
  rfl

end Buffer
end FourState

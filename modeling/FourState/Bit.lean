/-!
# Four-state bits

A bit of a logic vector is a known `0` or `1`, an unknown `x`, or a
high-impedance `z`.  It is stored as a pair of Booleans, one from the low and
one from the high value plane; the high one says that the bit is not known.
-/

namespace FourState

/-- One four-state value. -/
inductive Bit
  | zero
  | one
  | x
  | z
  deriving DecidableEq, Inhabited

namespace Bit

/-- The bit stored as a low and a high plane Boolean. -/
def ofPlanes : Bool → Bool → Bit
  | false, false => zero
  | true, false => one
  | false, true => x
  | true, true => z

/-- The Boolean stored in the low value plane. -/
def low : Bit → Bool
  | zero => false
  | one => true
  | x => false
  | z => true

/-- The Boolean stored in the high value plane. -/
def high : Bit → Bool
  | zero => false
  | one => false
  | x => true
  | z => true

/-- A bit is known when it is `0` or `1`. -/
def isKnown : Bit → Bool
  | zero => true
  | one => true
  | x => false
  | z => false

/-- The known bit of a Boolean. -/
def ofBool (value : Bool) : Bit :=
  if value then one else zero

/-- The letter a bit is written with. -/
def toChar : Bit → Char
  | zero => '0'
  | one => '1'
  | x => 'x'
  | z => 'z'

/-- Read one value-change letter, of either case. -/
def ofChar? : Char → Option Bit
  | '0' => some zero
  | '1' => some one
  | 'x' => some x
  | 'X' => some x
  | 'z' => some z
  | 'Z' => some z
  | _ => none

/-- Exchange the known bits; an unknown bit becomes `x`. -/
def invert : Bit → Bit
  | zero => one
  | one => zero
  | x => x
  | z => x

/-- The bit kept by a two-state vector: an unknown bit becomes `0`. -/
def collapse : Bit → Bit
  | zero => zero
  | one => one
  | x => zero
  | z => zero

/-- What fills the positions to the left of a leading bit: an unknown bit
repeats itself, a known one is followed by zeros. -/
def extension : Bit → Bit
  | zero => zero
  | one => zero
  | x => x
  | z => z

@[simp] theorem ofPlanes_low_high (bit : Bit) : ofPlanes bit.low bit.high = bit := by
  cases bit <;> rfl

@[simp] theorem low_ofPlanes (low high : Bool) : (ofPlanes low high).low = low := by
  cases low <;> cases high <;> rfl

@[simp] theorem high_ofPlanes (low high : Bool) : (ofPlanes low high).high = high := by
  cases low <;> cases high <;> rfl

@[simp] theorem isKnown_ofPlanes (low high : Bool) : (ofPlanes low high).isKnown = !high := by
  cases low <;> cases high <;> rfl

/-- A bit is unknown when the high plane holds it. -/
theorem isKnown_eq_false_iff (bit : Bit) : bit.isKnown = false ↔ bit.high = true := by
  cases bit <;> decide

theorem ofPlanes_eq_zero_iff (low high : Bool) :
    ofPlanes low high = zero ↔ low = false ∧ high = false := by
  cases low <;> cases high <;> simp [ofPlanes]

theorem ofPlanes_eq_one_iff (low high : Bool) :
    ofPlanes low high = one ↔ low = true ∧ high = false := by
  cases low <;> cases high <;> simp [ofPlanes]

theorem collapse_ofPlanes (low high : Bool) :
    (ofPlanes low high).collapse = ofPlanes (low && !high) false := by
  cases low <;> cases high <;> rfl

/-- Every bit is read back from its letter. -/
@[simp] theorem ofChar?_toChar (bit : Bit) : ofChar? bit.toChar = some bit := by
  cases bit <;> rfl

end Bit
end FourState

import FourState.Operator.Operand
import FourState.Proofs.WellFormed

/-!
# Completions

An unknown bit stands for either Boolean.  A completion of a value gives every
bit of it a Boolean that the bit stands for.  A four-state answer is exact if it
is the known Boolean that all completions lead to, and `x` if they lead to both.
-/

namespace FourState

/-! ## Bits -/

namespace Bit

/-- The bit stands for the Boolean: a known one for its own only, an unknown one
for both. -/
def Admits : Bit → Bool → Prop
  | zero, value => value = false
  | one, value => value = true
  | x, _ => True
  | z, _ => True

instance (bit : Bit) (value : Bool) : Decidable (bit.Admits value) :=
  match bit with
  | zero => inferInstanceAs (Decidable (value = false))
  | one => inferInstanceAs (Decidable (value = true))
  | x => inferInstanceAs (Decidable True)
  | z => inferInstanceAs (Decidable True)

/-- Every bit stands for the Boolean in its low plane. -/
theorem admits_low (bit : Bit) : bit.Admits bit.low := by
  cases bit <;> decide

theorem admits_ofBool_iff (known value : Bool) : (ofBool known).Admits value ↔ value = known := by
  cases known <;> rfl

/-- A bit stands for its own Boolean if it is known, and for both if it is not. -/
theorem admits_iff_eq_or (bit : Bit) (value : Bool) :
    bit.Admits value ↔ bit = ofBool value ∨ bit.high = true := by
  revert value
  cases bit <;> decide

/-- A bit stands for a Boolean unless it is known to be the other one. -/
theorem admits_iff_ne (bit : Bit) (value : Bool) :
    bit.Admits value ↔ bit ≠ ofBool (!value) := by
  revert value
  cases bit <;> decide

/-- A known bit stands for one Boolean only. -/
theorem eq_low_of_admits
    {bit : Bit}
    {value : Bool}
    (known : bit.high = false)
    (admits : bit.Admits value) :
    value = bit.low := by
  cases bit with
  | zero | one => exact admits
  | x | z => contradiction

/-- The inverted bit stands for the inverted Booleans. -/
theorem admits_invert_iff (bit : Bit) (value : Bool) :
    bit.invert.Admits value ↔ bit.Admits (!value) := by
  revert value
  cases bit <;> decide

theorem invert_ne_z (bit : Bit) : bit.invert ≠ z := by
  cases bit <;> decide

/-- The bit is the exact answer over the possible completions: the known Boolean
that all of them lead to, in every other case `x`, and never `z`. -/
structure Decides
    {completion : Type}
    (bit : Bit)
    (possible : completion → Prop)
    (answer : completion → Bool) : Prop where
  known_iff : ∀ value, bit = ofBool value ↔ ∀ bits, possible bits → answer bits = value
  eq_x : (¬∃ value, ∀ bits, possible bits → answer bits = value) → bit = x
  ne_z : bit ≠ z

/-- An answer other than `z` is exact if it stands for just the Booleans that
completions lead to. -/
theorem decides_of_admits
    {completion : Type}
    {bit : Bit}
    {possible : completion → Prop}
    {answer : completion → Bool}
    (notHighZ : bit ≠ z)
    (admits_iff : ∀ value, bit.Admits value ↔ ∃ bits, possible bits ∧ answer bits = value) :
    bit.Decides possible answer := by
  have known_iff : ∀ value, bit = ofBool value ↔ ∀ bits, possible bits → answer bits = value := by
    intro value
    constructor
    · rintro rfl bits isPossible
      exact (admits_ofBool_iff value _).1 ((admits_iff _).2 ⟨bits, isPossible, rfl⟩)
    · intro agree
      have excluded : ¬bit.Admits (!value) := by
        intro admits
        obtain ⟨bits, isPossible, answers⟩ := (admits_iff _).1 admits
        rw [agree bits isPossible] at answers
        cases value <;> contradiction
      revert excluded notHighZ
      cases value <;> cases bit <;> decide
  refine ⟨known_iff, ?_, notHighZ⟩
  intro disagree
  cases bit with
  | zero => exact absurd ⟨false, (known_iff false).1 rfl⟩ disagree
  | one => exact absurd ⟨true, (known_iff true).1 rfl⟩ disagree
  | x => rfl
  | z => contradiction

end Bit

/-! ## Values -/

/-- The Booleans complete the bits of the value. -/
def Buffer.Admits (buffer : Buffer) (bits : Nat → Bool) : Prop :=
  ∀ position bit, buffer.bit? position = some bit → bit.Admits (bits position)

/-- The Booleans complete the bits of the vector. -/
def LogicVector.Admits (vector : LogicVector) (bits : Nat → Bool) : Prop :=
  ∀ position bit, vector.bit? position = some bit → bit.Admits (bits position)

/-- The Booleans of a value, cut or extended: above its width the most
significant one is repeated, or `false` stands. -/
def extendBools (width : Nat) (signExtend : Bool) (bits : Nat → Bool) (position : Nat) : Bool :=
  if position < width then bits position
  else if signExtend then bits (width - 1)
  else false

namespace Buffer

theorem admits_iff (buffer : Buffer) (bits : Nat → Bool) :
    buffer.Admits bits ↔
      ∀ position, position < buffer.width → (buffer.bit position).Admits (bits position) := by
  constructor
  · intro admits position inside
    exact admits position _ (by rw [bit?, if_pos inside])
  · intro admits position bit shows
    unfold bit? at shows
    split at shows
    · rename_i inside
      cases shows
      exact admits position inside
    · contradiction

/-- A vector and the buffer read from it have the same completions. -/
theorem admits_ofVector_iff
    {vector : LogicVector}
    {value : Buffer}
    (reads : ofVector vector = .ok value)
    (bits : Nat → Bool) :
    value.Admits bits ↔ vector.Admits bits := by
  simp only [Admits, LogicVector.Admits, bit?_ofVector reads]

/-- The low plane of the bits is a completion. -/
theorem admits_low (buffer : Buffer) : buffer.Admits fun position => (buffer.bit position).low :=
  (admits_iff buffer _).2 fun position _ => (buffer.bit position).admits_low

/-- A completion stays one if a bit is given another Boolean it stands for. -/
theorem Admits.update
    {buffer : Buffer}
    {bits : Nat → Bool}
    (admits : buffer.Admits bits)
    {chosen : Nat}
    {value : Bool}
    (admitsValue : (buffer.bit chosen).Admits value) :
    buffer.Admits fun position => if position = chosen then value else bits position := by
  rw [admits_iff] at admits ⊢
  intro position inside
  split
  · rename_i isChosen
    rwa [isChosen]
  · exact admits position inside

/-- The Booleans that completions have at a position are those its bit stands for. -/
theorem admits_bit_iff
    (buffer : Buffer)
    {position : Nat}
    (inside : position < buffer.width)
    (value : Bool) :
    (buffer.bit position).Admits value ↔
      ∃ bits, buffer.Admits bits ∧ bits position = value := by
  constructor
  · intro admitsValue
    exact ⟨_, buffer.admits_low.update admitsValue, if_pos rfl⟩
  · rintro ⟨bits, admits, rfl⟩
    exact (admits_iff buffer bits).1 admits position inside

/-- A bit of a cut or extended value stands for the Booleans that cut or extended
completions have there. -/
theorem admits_bit_resized_iff
    {buffer : Buffer}
    (canonical : buffer.Canonical)
    (notEmpty : 0 < buffer.width)
    {width position : Nat}
    (inside : position < width)
    (signExtend : Bool)
    (value : Bool) :
    ((buffer.resized width signExtend).bit position).Admits value ↔
      ∃ bits, buffer.Admits bits ∧ extendBools buffer.width signExtend bits position = value := by
  rw [bit_resized canonical, if_pos inside]
  unfold extendBools
  split
  · rename_i inBuffer
    exact buffer.admits_bit_iff inBuffer value
  · split
    · exact buffer.admits_bit_iff (by omega) value
    · constructor
      · rintro rfl
        exact ⟨_, buffer.admits_low, rfl⟩
      · rintro ⟨bits, -, rfl⟩
        rfl

end Buffer

/-! ## Operands -/

namespace LogicVector

/-- The value of a readable vector is a canonical buffer with its completions. -/
theorem Readable.ofVector
    {vector : LogicVector}
    (readable : vector.Readable) :
    ∃ value, Buffer.ofVector vector = .ok value ∧ value.Canonical ∧
      value.width = vector.width ∧ value.signed = vector.signed ∧
      ∀ bits, value.Admits bits ↔ vector.Admits bits := by
  obtain ⟨block, stored⟩ := exists_block readable.isAllocated
  obtain ⟨value, reads, canonical, sameWidth, sameSigned, -⟩ :=
    readable.wellFormed.ofVector (fun _ isValue => isValue) stored
  exact ⟨value, reads, canonical, sameWidth, sameSigned, Buffer.admits_ofVector_iff reads⟩

/-- The buffer that is read from a readable vector is canonical, with its width
and signedness. -/
theorem Readable.canonical_ofVector
    {vector : LogicVector}
    (readable : vector.Readable)
    {value : Buffer}
    (reads : Buffer.ofVector vector = .ok value) :
    value.Canonical ∧ value.width = vector.width ∧ value.signed = vector.signed := by
  obtain ⟨read, readsSame, canonical, sameWidth, sameSigned, -⟩ := readable.ofVector
  rw [reads] at readsSame
  cases readsSame
  exact ⟨canonical, sameWidth, sameSigned⟩

/-- A buffer has the bits of the vector it was read from. -/
theorem bit?_of_ofVector
    {vector : LogicVector}
    {value : Buffer}
    (reads : Buffer.ofVector vector = .ok value)
    {position : Nat}
    (inside : position < value.width) :
    vector.bit? position = some (value.bit position) := by
  rw [← Buffer.bit?_ofVector reads, Buffer.bit?, if_pos inside]

/-- An operand is canonical, and its bits stand for the cut or extended
completions of the vector. -/
theorem Readable.operand
    {vector : LogicVector}
    (readable : vector.Readable)
    (width : Nat)
    (signExtend : Bool) :
    ∃ value, vector.operand width signExtend = .ok value ∧ value.Canonical ∧
      value.width = width ∧
      ∀ position, position < width → ∀ outcome, (value.bit position).Admits outcome ↔
        ∃ bits, vector.Admits bits ∧
          extendBools vector.width signExtend bits position = outcome := by
  obtain ⟨value, reads, canonical, sameWidth, -, admits_iff⟩ := readable.ofVector
  refine ⟨value.resized width signExtend, ?_, Buffer.canonical_resized _ _ _, by simp, ?_⟩
  · rw [LogicVector.operand, reads]
    rfl
  · intro position inside outcome
    rw [Buffer.admits_bit_resized_iff canonical (by
      rw [sameWidth]
      exact readable.wellFormed.width_pos) inside, sameWidth]
    simp only [admits_iff]

end LogicVector
end FourState

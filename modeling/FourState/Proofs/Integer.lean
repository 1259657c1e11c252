import FourState.Proofs.Approximation
import FourState.Proofs.Number

/-!
# Bit vectors in buffers

A known buffer holds a bit vector of its width.  Cutting and extending it,
complementing, adding and multiplying give buffers that hold the result of the
same operation on bit vectors, and its integer readings are those of the bit
vector it holds.
-/

namespace FourState

/-- The integer of a bit vector: its two's complement value, or its unsigned one. -/
def BitWord.integer {size : Nat} (word : BitVec size) (signed : Bool) : Int :=
  if signed then word.toInt else word.toNat

/-- Past the bits of a bit vector, its integer goes on with the sign if it is read as signed. -/
theorem BitWord.getLsbD_ofInt_integer
    {width size : Nat}
    (value : BitVec width)
    (signed : Bool)
    {offset : Nat}
    (inside : offset < size) :
    (BitVec.ofInt size (BitWord.integer value signed)).getLsbD offset =
      if offset < width then value.getLsbD offset else signed && value.msb := by
  cases signed with
  | false =>
      change (BitVec.ofInt size (value.toNat : Int)).getLsbD offset = _
      rw [BitVec.ofInt_natCast, BitVec.ofNat_toNat, BitVec.getLsbD_setWidth]
      by_cases inValue : offset < width
      · simp [inValue, inside]
      · rw [BitVec.getLsbD_of_ge value _ (Nat.not_lt.1 inValue)]
        simp [inValue]
  | true =>
      change (value.signExtend size).getLsbD offset = _
      rw [BitVec.getLsbD_signExtend]
      by_cases inValue : offset < width <;> simp [inValue, inside]

/-- Numbers that agree in all words of a width have the same bits inside it. -/
theorem ofNat_eq_of_modEq
    {width first second : Nat}
    (sameWords : first ≡ second [MOD modulus (32 * wordCount width)]) :
    BitVec.ofNat width first = BitVec.ofNat width second := by
  apply BitVec.eq_of_toNat_eq
  rw [BitVec.toNat_ofNat, BitVec.toNat_ofNat, ← modulus_eq_two_pow]
  exact sameWords.of_dvd (modulus_dvd (le_wordCount width))

namespace Buffer

/-- The buffer is canonical, and its bits are those of a bit vector. -/
structure Holds (buffer : Buffer) {width : Nat} (value : BitVec width) : Prop where
  canonical : buffer.Canonical
  width_eq : buffer.width = width
  bit_eq : ∀ position, buffer.bit position = Bit.ofBool (value.getLsbD position)

section

variable {width : Nat} {buffer left right : Buffer} {value first second : BitVec width}

/-- The bits past the width are zeros on either side. -/
theorem holds_of_lt
    (canonical : buffer.Canonical)
    (sameWidth : buffer.width = width)
    (sameBits : ∀ position, position < width →
      buffer.bit position = Bit.ofBool (value.getLsbD position)) :
    buffer.Holds value := by
  refine ⟨canonical, sameWidth, ?_⟩
  intro position
  by_cases inside : position < width
  · exact sameBits position inside
  · rw [bit_of_width_le _ (by omega), BitVec.getLsbD_of_ge _ _ (Nat.not_lt.1 inside)]
    rfl

namespace Holds

theorem low_eq (holds : buffer.Holds value) (position : Nat) :
    Words.bit buffer.low position = value.getLsbD position := by
  rw [holds.canonical.low_eq, holds.bit_eq]
  cases value.getLsbD position <;> rfl

theorem hasUnknown_eq (holds : buffer.Holds value) : buffer.hasUnknown = false := by
  rw [Bool.eq_false_iff]
  intro unknown
  obtain ⟨position, -, high⟩ := (hasUnknown_eq_true_iff holds.canonical).1 unknown
  rw [holds.bit_eq] at high
  cases digit : value.getLsbD position <;> simp [digit, Bit.ofBool, Bit.high] at high

/-! ## Integer readings -/

theorem toNat_eq (holds : buffer.Holds value) : buffer.toNat = value.toNat := by
  apply Nat.eq_of_testBit_eq
  intro position
  rw [toNat, Words.testBit_value, Array.toArray_toList, holds.low_eq, BitVec.testBit_toNat]

/-- A buffer has a set bit exactly if its number is not zero. -/
theorem isNotZero_iff (holds : buffer.Holds value) :
    buffer.isNotZero = true ↔ value ≠ BitVec.ofNat width 0 := by
  have someBit : buffer.isNotZero = true ↔ ∃ position, value.getLsbD position = true := by
    rw [isNotZero, Words.anyBit_eq_true_iff]
    simp only [holds.low_eq]
  rw [someBit, ← BitVec.ofNat_eq_ofNat, BitWord.ne_zero_iff]
  constructor
  · rintro ⟨position, set⟩
    exact ⟨position, BitVec.lt_of_getLsbD set, set⟩
  · rintro ⟨position, -, set⟩
    exact ⟨position, set⟩

theorem msb_eq (holds : buffer.Holds value) : buffer.msb = Bit.ofBool value.msb := by
  rw [Buffer.msb, holds.bit_eq, holds.width_eq, BitVec.msb_eq_getLsbD_last]

theorem toInt_eq (holds : buffer.Holds value) : buffer.toInt = value.toInt := by
  rw [toInt, holds.toNat_eq, holds.msb_eq, holds.width_eq, BitVec.toInt_eq_msb_cond,
    modulus_eq_two_pow]
  cases width with
  | zero => simp [BitVec.of_length_zero]
  | succ width => cases value.msb <;> simp [Bit.ofBool]

/-! ## Movement -/

/-- A cut or extended buffer holds the integer it was read as, modulo the new width. -/
theorem resized (holds : buffer.Holds value) (newWidth : Nat) (signExtend : Bool) :
    (buffer.resized newWidth signExtend).Holds
      (BitVec.ofInt newWidth (BitWord.integer value signExtend)) := by
  apply holds_of_lt (canonical_resized _ _ _) (width_resized _ _ _)
  intro position inside
  rw [bit_resized holds.canonical, if_pos inside, holds.width_eq, holds.bit_eq, holds.msb_eq,
    BitWord.getLsbD_ofInt_integer _ _ inside]
  split
  · rfl
  · cases signExtend <;> rfl

/-- Every bit inside the width is inverted. -/
theorem complement (holds : buffer.Holds value) : buffer.complement.Holds (~~~value) := by
  let inverse : Buffer := { buffer with low := buffer.low.map fun word => ~~~word }
  have lowSized : inverse.low.size = wordCount inverse.width := by
    simpa [inverse] using holds.canonical.size_low
  have highSized : inverse.high.size = wordCount inverse.width := holds.canonical.size_high
  have canonical : buffer.complement.Canonical := canonical_trim lowSized highSized
  apply holds_of_lt canonical holds.width_eq
  intro position inside
  have inBuffer : position < buffer.width := holds.width_eq ▸ inside
  have inBounds : position / 32 < buffer.low.size := by
    rw [holds.canonical.size_low]
    exact div_lt_wordCount inBuffer
  have inverted : Words.bit inverse.low position = !Words.bit buffer.low position := by
    rw [Words.bit, Words.bit, Words.word_of_lt _ (by simpa [inverse] using inBounds),
      Words.word_of_lt _ inBounds, Array.getElem_map, BitVec.getLsbD_not]
    simp [Nat.mod_lt position (by decide : 0 < 32)]
  have clear : Words.bit inverse.high position = false := by
    change Words.bit buffer.high position = false
    rw [holds.canonical.high_eq, holds.bit_eq]
    cases value.getLsbD position <;> rfl
  change inverse.trim.bit position = _
  rw [bit_trim lowSized highSized, bit_of_lt inverse inBuffer, inverted, clear, holds.low_eq,
    BitVec.getLsbD_not]
  cases value.getLsbD position <;> simp [inside, Bit.ofBool, Bit.ofPlanes]

end Holds

/-! ## Numbers -/

theorem holds_zero (width : Nat) : (zero width).Holds (BitVec.ofNat width 0) :=
  holds_of_lt (canonical_zero width) rfl fun position _ => by simp [Bit.ofBool]

theorem holds_ofNat (width value : Nat) :
    (ofNat width value).Holds (BitVec.ofNat width value) := by
  apply holds_of_lt (canonical_ofNat width value) (width_ofNat width value)
  intro position inside
  rw [bit_ofNat, if_pos inside, BitVec.getLsbD_ofNat]
  simp [inside]

theorem holds_ofInt (width : Nat) (value : Int) :
    (ofInt width value).Holds (BitVec.ofInt width value) := by
  have sameBits : BitVec.ofNat width (value % modulus width).toNat = BitVec.ofInt width value := by
    apply BitVec.eq_of_toNat_eq
    rw [BitVec.toNat_ofNat, BitVec.toNat_ofInt, modulus_eq_two_pow, Nat.mod_eq_of_lt]
    have positive : (0 : Int) < (2 ^ width : Nat) := by exact_mod_cast Nat.two_pow_pos width
    have remainderNonneg := Int.emod_nonneg value positive.ne'
    have remainderLt := Int.emod_lt_of_pos value positive
    omega
  rw [ofInt, ← sameBits]
  exact holds_ofNat width _

theorem holds_ofWords
    {width : Nat}
    {words : List Word}
    (sized : words.length = wordCount width) :
    (ofWords width words).Holds (BitVec.ofNat width (Words.value words)) := by
  let given : Buffer := { zero width with low := words.toArray }
  have lowSized : given.low.size = wordCount given.width := by simpa [given] using sized
  have highSized : given.high.size = wordCount given.width := (canonical_zero width).size_high
  have canonical : (ofWords width words).Canonical := canonical_trim lowSized highSized
  apply holds_of_lt canonical (width_ofWords width words)
  intro position inside
  have clear : Words.bit given.high position = false := by
    change Words.bit (zero width).high position = false
    rw [(canonical_zero width).high_eq, bit_zero]
    rfl
  change given.trim.bit position = _
  rw [bit_trim lowSized highSized, bit_of_lt _ inside, clear, ← Words.testBit_value,
    BitVec.getLsbD_ofNat]
  cases (Words.value words).testBit position <;> simp [inside, Bit.ofBool, Bit.ofPlanes]

/-! ## Arithmetic -/

namespace Holds

theorem add (holds : left.Holds first) (otherHolds : right.Holds second) (carry : Bool) :
    ∃ sum, left.add right carry = .ok sum ∧
      sum.Holds (first + second + BitVec.ofNat width carry.toNat) := by
  have leftLength : left.low.toList.length = wordCount width := by
    rw [Array.length_toList, holds.canonical.size_low, holds.width_eq]
  have rightLength : right.low.toList.length = wordCount width := by
    rw [Array.length_toList, otherHolds.canonical.size_low, otherHolds.width_eq]
  obtain ⟨words, adds, length, value⟩ :=
    Words.add_modEq (leftLength.trans rightLength.symm) carry.toNat_le
  rw [leftLength] at length value
  refine ⟨ofWords width words, ?_, ?_⟩
  · rw [Buffer.add, adds, holds.width_eq]
    rfl
  · have sameValue : Words.value words ≡ first.toNat + second.toNat + carry.toNat
        [MOD modulus (32 * wordCount width)] := by
      rw [← holds.toNat_eq, ← otherHolds.toNat_eq]
      exact value
    have holdsWords := holds_ofWords length
    rwa [ofNat_eq_of_modEq sameValue, BitVec.ofNat_add, BitVec.ofNat_add, BitVec.ofNat_toNat,
      BitVec.ofNat_toNat, BitVec.setWidth_eq, BitVec.setWidth_eq] at holdsWords

theorem multiply (holds : left.Holds first) (otherHolds : right.Holds second) :
    ∃ product, left.multiply right = .ok product ∧ product.Holds (first * second) := by
  have leftLength : left.low.toList.length = wordCount width := by
    rw [Array.length_toList, holds.canonical.size_low, holds.width_eq]
  have rightLength : right.low.toList.length = wordCount width := by
    rw [Array.length_toList, otherHolds.canonical.size_low, otherHolds.width_eq]
  obtain ⟨words, multiplies, length, value⟩ :=
    Words.multiply_modEq (leftLength.trans rightLength.symm)
  rw [leftLength] at length value
  refine ⟨ofWords width words, ?_, ?_⟩
  · rw [Buffer.multiply, multiplies, holds.width_eq]
    rfl
  · have sameValue : Words.value words ≡ first.toNat * second.toNat
        [MOD modulus (32 * wordCount width)] := by
      rw [← holds.toNat_eq, ← otherHolds.toNat_eq]
      exact value
    have holdsWords := holds_ofWords length
    rwa [ofNat_eq_of_modEq sameValue, BitVec.ofNat_mul, BitVec.ofNat_toNat,
      BitVec.ofNat_toNat, BitVec.setWidth_eq, BitVec.setWidth_eq] at holdsWords

end Holds
end
end Buffer
end FourState

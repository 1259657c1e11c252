import FourState.LogicVector.Integer
import FourState.Proofs.Gate
import FourState.Proofs.KnownRendering
import FourState.Proofs.Ordering
import Mathlib.Data.Int.ModEq

/-!
# Machine integers

A known vector stands for one integer, and its readings as machine words are this integer
modulo two to the size of the word, whatever the width of the vector.  A number that is
assigned to a vector is cut to its width.  A negative machine word is assigned by way of
64 bits, so it is the number of the vector only up to this width.
-/

namespace FourState

/-- The lowest bits of a bit vector are its integer modulo two to their number. -/
theorem BitWord.ofInt_integer_of_le
    {width size : Nat}
    (value : BitVec width)
    (narrower : size ≤ width)
    (signed : Bool) :
    BitVec.ofInt size (BitWord.integer value signed) = value.setWidth size := by
  apply BitVec.eq_of_getLsbD_eq
  intro offset inside
  rw [BitWord.getLsbD_ofInt_integer _ _ inside, if_pos (Nat.lt_of_lt_of_le inside narrower),
    BitVec.getLsbD_setWidth]
  simp [inside]

/-! ## The way of a machine word through 64 bits -/

section

variable (number : Word)

/-- A machine word that is extended to 64 bits is its integer modulo two to the 64. -/
theorem toNat_signExtend_word :
    ((number.signExtend 64).toNat : Int) = number.toInt % modulus 64 := by
  have notNegative : 0 ≤ number.toInt % (2 ^ 64 : Nat) := Int.emod_nonneg _ (by decide)
  rw [BitVec.signExtend, BitVec.toNat_ofInt, Int.toNat_of_nonneg notNegative,
    modulus_eq_two_pow]

/-- A natural number keeps its value on this way, and a negative one gains two to the 64. -/
theorem toInt_emod_modulus_64 :
    number.toInt % modulus 64 =
      if 0 ≤ number.toInt then number.toInt else number.toInt + modulus 64 := by
  have least : -2147483648 ≤ number.toInt := number.le_toInt
  have greatest : number.toInt < 2147483648 := number.toInt_lt
  have limit : ((modulus 64 : Nat) : Int) = 18446744073709551616 := rfl
  rw [limit]
  split
  · omega
  · omega

/-- The lowest 32 bits are the word again. -/
theorem setWidth_signExtend_word : (number.signExtend 64).setWidth 32 = number := by
  apply BitVec.eq_of_getLsbD_eq
  intro offset inWord
  have inLonger : offset < 64 := by omega
  rw [BitVec.getLsbD_setWidth, BitVec.getLsbD_signExtend]
  simp [inWord, inLonger]

/-- A machine word is itself modulo two to a width, also by way of 64 bits, if it is not
negative or the width is not larger. -/
theorem signExtend_emod_modulus_iff (width : Nat) :
    ((number.signExtend 64).toNat : Int) % modulus width = number.toInt % modulus width ↔
      width ≤ 64 ∨ 0 ≤ number.toInt := by
  rw [toNat_signExtend_word]
  constructor
  · intro same
    by_contra outside
    obtain ⟨wide, negative⟩ := not_or.1 outside
    -- Past 64 bits both remainders are the numbers raised into range, by different amounts.
    have least : -2147483648 ≤ number.toInt := number.le_toInt
    have doubled : (2 * modulus 64 : Int) ≤ modulus width := by
      have grows := Nat.le_of_dvd (modulus_pos width) (modulus_dvd (Nat.not_le.1 wide))
      rw [modulus_succ] at grows
      exact_mod_cast grows
    have limit : ((modulus 64 : Nat) : Int) = 18446744073709551616 := rfl
    have raised : (number.toInt + modulus 64) % modulus width = number.toInt + modulus 64 :=
      Int.emod_eq_of_lt (by omega) (by omega)
    have wrapped : number.toInt % modulus width = number.toInt + modulus width := by
      rw [← Int.add_emod_right]
      exact Int.emod_eq_of_lt (by omega) (by omega)
    rw [toInt_emod_modulus_64, if_neg negative, raised, wrapped] at same
    omega
  · rintro (narrow | natural)
    · exact Int.emod_emod_of_dvd _ (Int.natCast_dvd_natCast.2 (modulus_dvd narrow))
    · rw [toInt_emod_modulus_64, if_pos natural]

end

namespace LogicVector

/-! ## Readings -/

/-- A word that begins with the bits of a bit vector, and is extended by the sign of a narrower
signed one, is the integer of the bit vector modulo two to its own size. -/
theorem extendSign_eq_ofInt
    {size width : Nat}
    {word : BitVec size}
    {value : BitVec width}
    (notEmpty : 0 < width)
    (sameBits : ∀ offset, offset < size → word.getLsbD offset = value.getLsbD offset)
    (signed : Bool) :
    extendSign word (min width size) signed = BitVec.ofInt size (BitWord.integer value signed) := by
  have sign_iff : (signed ∧ min width size < size ∧ word.getLsbD (min width size - 1)) ↔
      signed ∧ width < size ∧ value.msb := by
    by_cases narrow : width < size
    · have isLast : word.getLsbD (width - 1) = value.msb := by
        rw [sameBits _ (by omega), BitVec.msb_eq_getLsbD_last]
      rw [Nat.min_eq_left narrow.le, isLast]
    · simp [narrow, Nat.min_eq_right (Nat.not_lt.1 narrow)]
  apply BitVec.eq_of_getLsbD_eq
  intro offset inWord
  rw [BitWord.getLsbD_ofInt_integer _ _ inWord, ← sameBits offset inWord, extendSign]
  simp only [sign_iff]
  split
  · rename_i extended
    obtain ⟨isSigned, narrow, isNegative⟩ := extended
    rw [BitVec.getLsbD_or, BitVec.getLsbD_not, Mask.getLsbD_low, isSigned, isNegative,
      Nat.min_eq_left narrow.le]
    by_cases inside : offset < width <;> simp [inside, inWord]
  · rename_i plain
    split
    · rfl
    · rename_i outside
      have narrow : width < size := Nat.lt_of_le_of_lt (Nat.not_lt.1 outside) inWord
      rw [sameBits offset inWord, BitVec.getLsbD_of_ge _ _ (Nat.not_lt.1 outside)]
      cases signed with
      | false => rfl
      | true => simpa [narrow] using plain

section

variable {vector : LogicVector} {value : Int}

/-- The low plane of a known vector holds its ones, and no bit past its width. -/
theorem Readable.bit_valueLow
    (readable : vector.Readable)
    (known : vector.IsKnown)
    {block : Block}
    (stored : vector.block = .ok block)
    (position : Nat) :
    block.bit Plane.valueLow position = vector.pattern.getLsbD position := by
  obtain ⟨value, reads, holds⟩ := readable.holds_ofVector known
  rw [← holds.low_eq]
  rw [Buffer.ofVector, stored] at reads
  cases reads
  exact (Words.bit_map_get block Plane.valueLow position).symm

/-- The lowest 32 bits are the integer modulo two to the 32. -/
theorem low32_eq
    (readable : vector.Readable)
    (known : vector.IsKnown) :
    vector.low32 = .ok (BitVec.ofInt 32 (vector.integer vector.signed)) := by
  obtain ⟨block, stored⟩ := exists_block readable.isAllocated
  rw [low32, stored]
  refine congrArg Except.ok (extendSign_eq_ofInt readable.wellFormed.width_pos ?_ _)
  intro offset inWord
  rw [block.getLsbD_word _ _ inWord, readable.bit_valueLow known stored, Nat.mul_zero,
    Nat.zero_add]

/-- The lowest 64 bits are the integer modulo two to the 64. -/
theorem low64_eq
    (readable : vector.Readable)
    (known : vector.IsKnown) :
    vector.low64 = .ok (BitVec.ofInt 64 (vector.integer vector.signed)) := by
  obtain ⟨block, stored⟩ := exists_block readable.isAllocated
  rw [low64, stored]
  refine congrArg Except.ok (extendSign_eq_ofInt readable.wellFormed.width_pos ?_ _)
  intro offset inWord
  rw [BitVec.getLsbD_append]
  split
  · rename_i inFirst
    rw [block.getLsbD_word _ _ inFirst, readable.bit_valueLow known stored, Nat.mul_zero,
      Nat.zero_add]
  · rename_i past
    have inSecond : offset - 32 < 32 := by omega
    have joined : 32 * 1 + (offset - 32) = offset := by omega
    rw [block.getLsbD_word _ _ inSecond, readable.bit_valueLow known stored, joined]

theorem toNat_eq
    (readable : vector.Readable)
    (known : vector.IsKnown) :
    vector.toNat = .ok vector.pattern.toNat := by
  obtain ⟨value, reads, holds⟩ := readable.holds_ofVector known
  rw [toNat, reads]
  exact congrArg Except.ok holds.toNat_eq

/-- The integer readings of a vector, for the integer that it stands for. -/
structure ReadsInteger (vector : LogicVector) (value : Int) : Prop where
  low32 : ∃ word, vector.low32 = .ok word ∧ word.toInt ≡ value [ZMOD 2 ^ 32]
  low64 : ∃ word, vector.low64 = .ok word ∧ (word.toNat : Int) = value % 2 ^ 64
  toNat : ∃ number, vector.toNat = .ok number ∧ (number : Int) = vector.integer false

theorem Readable.readsInteger
    (readable : vector.Readable)
    (known : vector.IsKnown) :
    vector.ReadsInteger (vector.integer vector.signed) where
  low32 := by
    refine ⟨_, low32_eq readable known, ?_⟩
    rw [BitVec.toInt_ofInt]
    exact Int.bmod_emod
  low64 := by
    refine ⟨_, low64_eq readable known, ?_⟩
    rw [BitVec.toNat_ofInt]
    exact Int.toNat_of_nonneg (Int.emod_nonneg _ (by decide))
  toNat := ⟨_, toNat_eq readable known, rfl⟩

/-! ## Assigned numbers -/

/-- The ones of a vector that holds a number are its binary digits. -/
theorem Holds.pattern_eq (holds : vector.Holds value) :
    vector.pattern = BitVec.ofInt vector.width value := by
  rw [← vector.pattern_eq_ofInt, holds.integer_eq]
  apply BitVec.eq_of_toNat_eq
  rw [BitVec.toNat_ofInt, BitVec.toNat_ofInt, modulus_eq_two_pow, Int.emod_emod]

/-- A natural number that is assigned to a vector is cut to its width. -/
theorem exists_setNat
    (readable : vector.Readable)
    (number : Nat) :
    ∃ updated changed, vector.setNat number = .ok (updated, changed) ∧
      updated.toHeader = vector.toHeader ∧ updated.Readable ∧ updated.Holds number := by
  obtain ⟨updated, changed, commits, sameHeader, shows⟩ :=
    commit_settles readable (Buffer.canonical_ofNat vector.width number)
  have updates : (vector.update (.setNat number)).result = .ok (updated, .flag changed) :=
    Outcome.ofFlagged_of_ok commits
  have stillReadable : updated.Readable := by
    refine readable.update ?_ updates
    intro source isSource
    contradiction
  have holds : (Buffer.ofNat vector.width number).Holds (BitVec.ofInt vector.width number) := by
    rw [BitVec.ofInt_natCast]
    exact Buffer.holds_ofNat vector.width number
  exact ⟨updated, changed, commits, sameHeader, stillReadable,
    stillReadable.holds_of_settled sameHeader holds shows⟩

/-- An update that leaves every bit as it was answers no. -/
theorem Gated.eq_false_of_bit?_eq
    {updated : LogicVector}
    {change : Update LogicVector}
    {noted : Nat → Prop}
    {changed : Bool}
    (gated : vector.Gated change noted (.flag changed) updated)
    (allocated : vector.storage.isAllocated = true)
    (inWidth : ∀ position, change.Reaches vector.width position → position < vector.width)
    (sameBits : ∀ position, updated.bit? position = vector.bit? position) :
    changed = false := by
  have sameWidth : updated.width = vector.width := congrArg Header.width gated.header_eq
  obtain ⟨_, isFlag, changed_iff⟩ := gated.answers
  cases isFlag
  rw [← Bool.not_eq_true, changed_iff]
  rintro ⟨position, differs⟩
  by_cases inside : position < vector.width
  · have same := sameBits position
    rw [bit?_eq_cell_value allocated inside,
      bit?_eq_cell_value gated.isAllocated (sameWidth.symm ▸ inside)] at same
    exact differs (Option.some.inj same)
  · have notReached := fun reached => inside (inWidth position reached)
    exact differs (congrArg Cell.value (gated.outside position notReached))

/-- A known vector that is assigned its own number shows the same bits, and says so. -/
theorem setNat_toNat
    (readable : vector.Readable)
    (known : vector.IsKnown) :
    ∃ updated, vector.setNat vector.pattern.toNat = .ok (updated, false) ∧
      ∀ position, updated.bit? position = vector.bit? position := by
  obtain ⟨updated, changed, sets, sameHeader, stillReadable, holds⟩ :=
    exists_setNat readable vector.pattern.toNat
  have updates : (vector.update (.setNat vector.pattern.toNat)).result =
      .ok (updated, .flag changed) :=
    Outcome.ofFlagged_of_ok sets
  have gated : vector.Gated (.setNat vector.pattern.toNat) (fun _ => False) (.flag changed)
      updated := by
    refine gated_of_update readable.wellFormed readable.isAllocated ?_ rfl updates
    intro source isSource
    contradiction
  have sameWidth : updated.width = vector.width := congrArg Header.width sameHeader
  have sameBits (position : Nat) : updated.bit? position = vector.bit? position := by
    by_cases inside : position < vector.width
    · rw [known.bit?_eq inside, holds.isKnown.bit?_eq (sameWidth.symm ▸ inside),
        holds.pattern_eq, BitVec.ofInt_natCast, BitVec.getLsbD_ofNat, BitVec.testBit_toNat,
        sameWidth, decide_eq_true inside, Bool.true_and]
    · rw [bit?, bit?, sameWidth, if_neg inside, if_neg inside]
  refine ⟨updated, ?_, sameBits⟩
  rw [sets, gated.eq_false_of_bit?_eq readable.isAllocated (fun _ => id) sameBits]

/-- A vector that is as wide as a word shows the word that it was given. -/
theorem Holds.low32_eq
    {number : Nat}
    (readable : vector.Readable)
    (holds : vector.Holds number)
    (wide : 32 ≤ vector.width) :
    vector.low32 = .ok (BitVec.ofNat 32 number) := by
  rw [LogicVector.low32_eq readable holds.isKnown, integer, BitWord.ofInt_integer_of_le _ wide,
    holds.pattern_eq, BitVec.ofInt_natCast, BitVec.setWidth_ofNat_of_le wide]

/-- A signed vector whose width has room for an integer reads as the integer that it holds. -/
theorem Holds.integer_eq_of_fits
    (holds : vector.Holds value)
    (least : -(2 ^ vector.width : Nat) ≤ value * 2)
    (greatest : value * 2 < (2 ^ vector.width : Nat)) :
    vector.integer true = value := by
  change vector.pattern.toInt = value
  rw [holds.pattern_eq, BitVec.toInt_ofInt]
  exact Int.bmod_eq_of_le_mul_two least greatest

/-- A vector after it has been given a machine word. -/
structure ShowsWord (vector : LogicVector) (number : Word) : Prop where
  holds : vector.Holds number.toInt
  /-- A signed vector that is as wide as the word is written as the number of the word. -/
  decimal : vector.signed = true → 32 ≤ vector.width →
    ∃ text, vector.render .decimal = .ok text ∧ Numeral.IsDecimal number.toInt text

theorem Readable.showsWord
    {number : Word}
    (readable : vector.Readable)
    (holds : vector.Holds number.toInt) :
    vector.ShowsWord number where
  holds := holds
  decimal isSigned wide := by
    have grows : 2 ^ 32 ≤ 2 ^ vector.width := Nat.pow_le_pow_right (by decide) wide
    have least : -2147483648 ≤ number.toInt := number.le_toInt
    have greatest : number.toInt < 2147483648 := number.toInt_lt
    refine ⟨_, render_decimal readable holds.isKnown, ?_⟩
    rw [isSigned, holds.integer_eq_of_fits (by omega) (by omega)]
    exact Numeral.isDecimal_integer _

/-- What a machine word becomes in a vector: its 64-bit form, cut to the width.  This is the
number of the word unless it is negative and the vector wider than 64 bits. -/
theorem exists_setWord
    (readable : vector.Readable)
    (number : Word) :
    ∃ updated changed, vector.setWord number = .ok (updated, changed) ∧
      updated.toHeader = vector.toHeader ∧
      updated.Holds (number.signExtend 64).toNat ∧
      (32 ≤ vector.width → updated.low32 = .ok number) ∧
      (vector.width ≤ 64 ∨ 0 ≤ number.toInt → updated.ShowsWord number) ∧
      (updated.Holds number.toInt → vector.width ≤ 64 ∨ 0 ≤ number.toInt) := by
  obtain ⟨updated, changed, sets, sameHeader, stillReadable, holds⟩ :=
    exists_setNat readable (number.signExtend 64).toNat
  have sameWidth : updated.width = vector.width := congrArg Header.width sameHeader
  have same_iff : updated.integer false = number.toInt % modulus updated.width ↔
      vector.width ≤ 64 ∨ 0 ≤ number.toInt := by
    rw [holds.integer_eq, ← sameWidth]
    exact signExtend_emod_modulus_iff number updated.width
  refine ⟨updated, changed, sets, sameHeader, holds, ?_, ?_, ?_⟩
  · intro wide
    rw [holds.low32_eq stillReadable (sameWidth.symm ▸ wide), BitVec.ofNat_toNat,
      setWidth_signExtend_word]
  · intro inReach
    exact stillReadable.showsWord ⟨holds.isKnown, same_iff.2 inReach⟩
  · intro holdsNumber
    exact same_iff.1 holdsNumber.integer_eq

end

end LogicVector
end FourState

import FourState.Proofs.Integer
import Mathlib.Data.Int.ModEq
import Mathlib.Data.Nat.Digits.Lemmas

/-!
# Integers modulo two to the width

A buffer of a width stores an integer modulo two to the width, and reading it back gives the
remainder or the two's complement of this width.  A known buffer is restored by either
reading.  Numbers go in and out by their digits to the base of a word, and a negative integer
goes in by way of its truncated remainder; what these give past the width is cut off.
-/

namespace FourState

/-- The number whose lowest bits stand for an integer: its magnitude, or for a negative one its
truncated remainder moved up by the modulus. -/
def wrapped (width : Nat) (value : Int) : Nat :=
  if value < 0 then (value.tmod (modulus width) + modulus width).natAbs else value.natAbs

/-- Wrapping stays inside the congruence class, although a multiple of the modulus becomes the
modulus itself. -/
theorem wrapped_modEq (width : Nat) (value : Int) :
    (wrapped width value : Int) ≡ value [ZMOD modulus width] := by
  have positive : (0 : Int) < modulus width := by exact_mod_cast modulus_pos width
  unfold wrapped
  split
  · -- The truncated remainder of a negative integer lies above the negated modulus.
    have above := value.lt_tmod_of_pos positive
    have moved : 0 ≤ value.tmod (modulus width) + modulus width := by omega
    rw [Int.natAbs_of_nonneg moved, Int.modEq_iff_dvd, Int.tmod_def]
    exact ⟨value.tdiv (modulus width) - 1, by ring⟩
  · rename_i natural
    rw [Int.natAbs_of_nonneg (Int.not_lt.1 natural)]

/-! ## Digits -/

namespace Words

/-- Replace the first words by digits, as far as both go. -/
def overwrite (words : Array Word) (digits : List Nat) : Array Word :=
  words.mapIdx fun index word => (digits[index]?.map (BitVec.ofNat 32)).getD word

/-- The digits of a number, written over zeros, are its words. -/
theorem overwrite_digits (count value : Nat) :
    overwrite (Array.replicate count 0) (Nat.digits (modulus 32) value) = ofNat count value := by
  apply Array.ext (by simp [overwrite])
  intro index inOverwritten inWords
  have isDigit := Nat.getD_digits value index (b := modulus 32) (by decide)
  have sameDigit : value / modulus 32 ^ index % modulus 32 =
      (value >>> (32 * index)) % modulus 32 := by
    rw [Nat.shiftRight_eq_div_pow, pow_mul, modulus_eq_two_pow]
  -- Past the digits the word stays zero, which is the digit of the number there.
  have zeroPast : ((Nat.digits (modulus 32) value)[index]?.map (BitVec.ofNat 32)).getD 0 =
      BitVec.ofNat 32 ((Nat.digits (modulus 32) value).getD index 0) := by
    rw [List.getD_eq_getElem?_getD]
    cases (Nat.digits (modulus 32) value)[index]? <;> rfl
  simp only [overwrite, ofNat, Array.getElem_mapIdx, Array.getElem_replicate,
    Array.getElem_ofFn]
  rw [zeroPast, isDigit, sameDigit]
  apply BitVec.eq_of_toNat_eq
  rw [BitVec.toNat_ofNat, BitVec.toNat_ofNat]
  exact Nat.mod_mod _ _

theorem value_eq_ofDigits (words : List Word) :
    value words = Nat.ofDigits (modulus 32) (words.map BitVec.toNat) := by
  induction words with
  | nil => rfl
  | cons first rest inductionHypothesis =>
      rw [List.map_cons, Nat.ofDigits_cons, ← inductionHypothesis]
      rfl

end Words

namespace Buffer

/-- Known zeros with the first low words replaced by digits, cut at the width. -/
def ofDigits (width : Nat) (digits : List Nat) : Buffer :=
  trim { zero width with low := Words.overwrite (zero width).low digits }

/-- A number is stored by its digits. -/
theorem ofDigits_digits (width value : Nat) :
    ofDigits width (Nat.digits (modulus 32) value) = ofNat width value := by
  have sameWords := Words.overwrite_digits (wordCount width) value
  rw [ofDigits, ofNat]
  exact congrArg (fun low => trim { zero width with low }) sameWords

/-! ## Congruent integers -/

variable {width : Nat}

/-- Only the congruence class of an integer is stored. -/
theorem ofInt_congr
    {first second : Int}
    (congruent : first ≡ second [ZMOD modulus width]) :
    ofInt width first = ofInt width second := by
  rw [ofInt, ofInt, congruent]

/-- The unsigned reading is the remainder of the stored integer. -/
theorem toNat_ofInt (width : Nat) (value : Int) :
    ((ofInt width value).toNat : Int) = value % 2 ^ width := by
  have notNegative : 0 ≤ value % (2 ^ width : Nat) :=
    Int.emod_nonneg _ (by exact_mod_cast (Nat.two_pow_pos width).ne')
  rw [(holds_ofInt width value).toNat_eq, BitVec.toNat_ofInt, Int.toNat_of_nonneg notNegative]
  norm_cast

/-- The signed reading is the only integer in the range of two's complement that is congruent
to the stored one. -/
theorem toInt_ofInt_eq_iff
    (notEmpty : 0 < width)
    (value number : Int) :
    (ofInt width value).toInt = number ↔
      -2 ^ (width - 1) ≤ number ∧ number < 2 ^ (width - 1) ∧ number ≡ value [ZMOD 2 ^ width] := by
  constructor
  · rintro rfl
    rw [(holds_ofInt width value).toInt_eq]
    refine ⟨BitVec.le_toInt _, BitVec.toInt_lt, ?_⟩
    rw [BitVec.toInt_ofInt]
    exact_mod_cast Int.bmod_emod
  · rintro ⟨least, greatest, congruent⟩
    -- Congruent integers are stored alike, and one in the range is its own reading.
    have sameClass : number ≡ value [ZMOD modulus width] := by
      rw [modulus_eq_two_pow]
      exact_mod_cast congruent
    rw [← ofInt_congr sameClass, (holds_ofInt width number).toInt_eq,
      BitVec.toInt_ofInt_eq_self notEmpty least greatest]

/-! ## Known buffers -/

section Known

variable {buffer : Buffer}

/-- A known buffer holds the bits of its low plane. -/
theorem holds_of_known
    (canonical : buffer.Canonical)
    (known : buffer.hasUnknown = false) :
    buffer.Holds (BitVec.ofNat buffer.width buffer.toNat) := by
  apply holds_of_lt canonical rfl
  intro position inside
  rw [bit_of_lt _ inside, high_of_known known, BitVec.getLsbD_ofNat, toNat, Words.testBit_value,
    Array.toArray_toList]
  simp only [inside, decide_true, Bool.true_and]
  cases Words.bit buffer.low position <;> rfl

/-- An unsigned buffer that holds the same bits is the buffer, read as unsigned. -/
theorem Holds.eq_setSigned
    {value : BitVec width}
    (holds : buffer.Holds value)
    {other : Buffer}
    (otherHolds : other.Holds value)
    (unsigned : other.signed = false) :
    other = buffer.setSigned false := by
  refine otherHolds.canonical.ext (canonical_setSigned holds.canonical false)
    (otherHolds.width_eq.trans holds.width_eq.symm) unsigned fun position => ?_
  exact (otherHolds.bit_eq position).trans (holds.bit_eq position).symm

/-- A known buffer is restored by its signed reading. -/
theorem ofInt_toInt
    (canonical : buffer.Canonical)
    (known : buffer.hasUnknown = false) :
    ofInt buffer.width buffer.toInt = buffer.setSigned false := by
  have holds := holds_of_known canonical known
  have stored := holds_ofInt buffer.width buffer.toInt
  rw [holds.toInt_eq, BitVec.ofInt_toInt] at stored
  rw [holds.toInt_eq]
  exact holds.eq_setSigned stored rfl

/-- A known buffer is restored by its unsigned reading. -/
theorem ofNat_toNat
    (canonical : buffer.Canonical)
    (known : buffer.hasUnknown = false) :
    ofNat buffer.width buffer.toNat = buffer.setSigned false :=
  (holds_of_known canonical known).eq_setSigned (holds_ofNat _ _) rfl

end Known

/-- A natural number is stored as the integer it is. -/
theorem ofInt_natCast (width value : Nat) : ofInt width value = ofNat width value := by
  have stored := holds_ofInt width value
  rw [BitVec.ofInt_natCast] at stored
  exact (holds_ofNat width value).eq_setSigned stored rfl

/-- An integer is stored by the digits of the number that it is wrapped to. -/
theorem ofDigits_wrapped (width : Nat) (value : Int) :
    ofDigits width (Nat.digits (modulus 32) (wrapped width value)) = ofInt width value := by
  rw [ofDigits_digits, ← ofInt_natCast]
  exact ofInt_congr (wrapped_modEq width value)

/-! ## Conversions of a width -/

/-- Conversions between integers and buffers of a width are inverse modulo two to the width. -/
structure ConvertsModulo (width : Nat) : Prop where
  hasUnknown_ofInt : ∀ value : Int, (ofInt width value).hasUnknown = false
  toNat_ofInt : ∀ value : Int, ((ofInt width value).toNat : Int) = value % 2 ^ width
  /-- The signed reading is the one congruent integer in the range of two's complement. -/
  toInt_ofInt_eq_iff : ∀ value number : Int, (ofInt width value).toInt = number ↔
    -2 ^ (width - 1) ≤ number ∧ number < 2 ^ (width - 1) ∧ number ≡ value [ZMOD 2 ^ width]
  ofInt_natCast : ∀ value : Nat, ofInt width value = ofNat width value
  /-- Either reading of a known buffer restores its planes. -/
  restore : ∀ buffer : Buffer, buffer.Canonical → buffer.width = width →
    buffer.hasUnknown = false →
    ofInt width buffer.toInt = buffer.setSigned false ∧
      ofNat width buffer.toNat = buffer.setSigned false
  ofDigits_digits : ∀ value : Nat,
    ofDigits width (Nat.digits (modulus 32) value) = ofNat width value
  /-- An integer goes in by the digits of what it is wrapped to. -/
  ofDigits_wrapped : ∀ value : Int,
    ofDigits width (Nat.digits (modulus 32) (wrapped width value)) = ofInt width value
  toNat_eq_ofDigits : ∀ buffer : Buffer,
    buffer.toNat = Nat.ofDigits (modulus 32) (buffer.low.toList.map BitVec.toNat)

/-- Conversions of every width but zero are inverse modulo two to the width. -/
theorem convertsModulo (notEmpty : 0 < width) : ConvertsModulo width where
  hasUnknown_ofInt value := (holds_ofInt width value).hasUnknown_eq
  toNat_ofInt value := toNat_ofInt width value
  toInt_ofInt_eq_iff value number := toInt_ofInt_eq_iff notEmpty value number
  ofInt_natCast value := ofInt_natCast width value
  restore buffer canonical sameWidth known := by
    subst sameWidth
    exact ⟨ofInt_toInt canonical known, ofNat_toNat canonical known⟩
  ofDigits_digits value := ofDigits_digits width value
  ofDigits_wrapped value := ofDigits_wrapped width value
  toNat_eq_ofDigits buffer := Words.value_eq_ofDigits buffer.low.toList

/-- With thirty-three bits the least integer is its own reading, and the negated modulus is
wrapped to the modulus, whose digits are those of zero. -/
theorem convertsModulo_thirtyThree :
    0 < 33 ∧ ConvertsModulo 33 ∧ (ofInt 33 (-4294967296)).toInt = -4294967296 ∧
      wrapped 33 (-8589934592) = 8589934592 ∧
      (ofDigits 33 (Nat.digits (modulus 32) 8589934592)).toNat = 0 := by
  have converts := convertsModulo (by decide : 0 < 33)
  have isWrapped : wrapped 33 (-8589934592) = 8589934592 := by decide
  have least := (converts.toInt_ofInt_eq_iff (-4294967296) (-4294967296)).2
    ⟨by decide, by decide, rfl⟩
  have cut := converts.toNat_ofInt (-8589934592)
  have isMultiple : (-8589934592 : Int) % 2 ^ 33 = 0 := by decide
  rw [← converts.ofDigits_wrapped, isWrapped, isMultiple] at cut
  exact ⟨by decide, converts, least, isWrapped, by exact_mod_cast cut⟩

end Buffer
end FourState
